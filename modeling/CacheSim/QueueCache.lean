import CacheSim.CacheObj
import CacheSim.Pin

/-!
# The pointers of `FIFO.c` and `LRU.c`

The objects that the hash table finds are linked into one queue, and the evictions unlink its tail by hand.
-/

namespace CacheSim

open Lib List Function

namespace Links

variable {α : Type} {q q' : Links α} {l l' : List α} {x : α}

theorem Holds.congr (h : q.Holds l) (hnext : ∀ y ∈ l, q'.next y = q.next y) (hprev : ∀ y ∈ l, q'.prev y = q.prev y)
    (hhead : q'.head = q.head) (htail : q'.tail = q.tail) : q'.Holds l := by
  refine ⟨h.next.congr ?_, h.prev.congr ?_, hhead ▸ h.head, htail ▸ h.tail⟩
  · exact fun y hy => congrArg some (hnext y hy)
  · exact fun y hy => congrArg some (hprev y (mem_reverse.1 hy))

/-- `q` holds `l`, and both ends of it are at hand. -/
structure Ends (q : Links α) (l : List α) : Prop extends q.Holds l where
  head_given : q.head.isSome
  tail_given : q.tail.isSome

theorem Ends.leave (h : q.Ends l) (h' : q.Leaves q' l') : q'.Ends l' :=
  ⟨h'.holds, h'.head_given.trans h.head_given, h'.tail_given.trans h.tail_given⟩

theorem Ends.tail_eq (h : q.Ends l) : q.tail = some l.getLast? := by
  obtain ⟨t, ht⟩ := Option.isSome_iff_exists.1 h.tail_given
  rw [ht, h.tail t ht]

variable [DecidableEq α]

theorem Ends.remove (h : q.Ends l) (hx : x ∈ l) : (q.remove_obj_from_list x).Ends (l.erase x) := by
  obtain ⟨l₁, l₂, -, rfl, herase⟩ := exists_erase_eq hx
  rw [herase]
  exact h.leave h.toHolds.remove

/-- What the evictions do by hand in place of `remove_obj_from_list`. -/
def unlink_tail (q : Links α) (obj_to_evict : α) : Links α :=
  let q_tail := q.prev obj_to_evict
  { q.link_next q_tail none with tail := some q_tail, head := if q_tail = none then some none else q.head }

/-- It differs in the pointers of the object that leaves, and nothing reads these. -/
theorem Ends.unlink_tail (h : q.Ends (l ++ [x])) : (q.unlink_tail x).Ends l := by
  have hholds := h.toHolds
  have hout := hholds.notMem.1
  have hleft := hholds.remove.holds
  have heq := remove_eq hholds.neighbours.1 hholds.neighbours.2
  rw [append_nil] at hleft
  rw [hholds.next_eq, hholds.prev_eq, head?_nil, h.tail_eq, getLast?_concat] at heq
  obtain ⟨p, hp⟩ := Option.isSome_iff_exists.1 h.head_given
  have hfirst := h.head p hp
  unfold Links.unlink_tail
  rw [hholds.prev_eq]
  refine ⟨hleft.congr ?_ ?_ ?_ ?_, ?_, rfl⟩
  · intro y hy
    simp [heq, ne_of_mem_of_not_mem hy hout]
  · intro y hy
    cases hend : l.getLast? <;> simp [heq, hend, link_next, link_prev, ne_of_mem_of_not_mem hy hout]
  · cases l with
    | nil => simp [heq, hp, hfirst]
    | cons a m => simp [heq, hp, hfirst, ne_of_mem_of_not_mem mem_cons_self hout]
  · simp [heq]
  · dsimp only
    split_ifs <;> simp [hp]

end Links

structure QueueCache (μ : Type) where
  cache_size : Int
  obj_md_size : Int := 0
  n_req : Int := 0
  occupied_byte : Int := 0
  n_obj : Int := 0
  hashtable : ObjId → Option (FifoObj μ) := fun _ => none
  queue : Links ObjId := { next := fun _ => none, prev := fun _ => none, head := some none, tail := some none }

namespace QueueCache

variable {μ : Type} [Inhabited μ] (pin : Pin) (s : QueueCache μ) (req : Request)

def cache_insert_base : QueueCache μ :=
  { s with
    hashtable := update s.hashtable req.obj_id (some { obj_size := req.obj_size, md := default })
    occupied_byte := s.occupied_byte + (req.obj_size + s.obj_md_size)
    n_obj := s.n_obj + 1 }

def cache_remove_obj_base (id : ObjId) (o : FifoObj μ) : QueueCache μ :=
  { s with
    hashtable := update s.hashtable id none
    occupied_byte := s.occupied_byte - (o.obj_size + s.obj_md_size)
    n_obj := s.n_obj - 1 }

def cache_skip_pinned (candidate : Option ObjId) : Option (Option ObjId) := do
  if pin.isNone then return candidate
  let (obj, _) ← seek (fun obj => some (s.queue.prev obj)) (fun obj => !pin.is_pinned obj) s.n_obj.toNat candidate
  return obj.or candidate

def FIFO_insert : Option (QueueCache μ) := do
  let queue ← s.queue.prepend_obj_to_head req.obj_id
  return { s.cache_insert_base req with queue := queue }

def FIFO_evict : Option (QueueCache μ) := do
  if pin.isSome then
    let victim ← (← s.cache_skip_pinned pin s.queue.tail.join)
    let o ← s.hashtable victim
    return { s with queue := s.queue.remove_obj_from_list victim }.cache_remove_obj_base victim o
  let obj_to_evict ← s.queue.tail.join
  let o ← s.hashtable obj_to_evict
  return { s with queue := s.queue.unlink_tail obj_to_evict }.cache_remove_obj_base obj_to_evict o

def FIFO_remove (id : ObjId) : QueueCache μ × Bool :=
  match s.hashtable id with
  | none => (s, false)
  | some o => ({ s with queue := s.queue.remove_obj_from_list id }.cache_remove_obj_base id o, true)

def LRU_insert : Option (QueueCache μ) := s.FIFO_insert req

def LRU_evict : Option (QueueCache μ) := s.FIFO_evict pin

def LRU_remove (id : ObjId) : QueueCache μ × Bool := s.FIFO_remove id

def FIFO_find : Option (QueueCache μ × Bool) := some (s, (s.hashtable req.obj_id).isSome)

def LRU_find : Option (QueueCache μ × Bool) := do
  if (s.hashtable req.obj_id).isNone then return (s, false)
  let queue ← s.queue.move_obj_to_head req.obj_id
  return ({ s with queue := queue }, true)

/-- `LRU.c` inserts, evicts and removes as `FIFO.c` does. -/
def ops (find : QueueCache μ → Request → Option (QueueCache μ × Bool)) : CacheOps (QueueCache μ) where
  count_req s := { s with n_req := s.n_req + 1 }
  find := find
  can_insert s req := some (s, !(req.obj_size + s.obj_md_size > s.cache_size))
  get_occupied_byte s := s.occupied_byte
  obj_md_size s := s.obj_md_size
  cache_size s := s.cache_size
  evict s _ := s.FIFO_evict pin
  insert s req := s.FIFO_insert req

def FIFO_get : Option (QueueCache μ × Bool) :=
  (ops pin FIFO_find).cache_get_base (fun s => s.n_obj.toNat) s req

def LRU_get : Option (QueueCache μ × Bool) :=
  (ops pin LRU_find).cache_get_base (fun s => s.n_obj.toNat) s req

end QueueCache

/-- The cache `c` with the queue `queue` of its objects. -/
def Fifo.linked {μ : Type} (c : Fifo μ) (queue : Links ObjId) : QueueCache μ :=
  ⟨c.cache_size, c.obj_md_size, c.n_req, c.occupied_byte, c.n_obj, fun id => c.q.lookup id, queue⟩

namespace QueueCache

variable {μ : Type} {pin : Pin} {s : QueueCache μ} {c : Fifo μ} {id : ObjId}

@[simp] theorem linked_hashtable (queue : Links ObjId) : (c.linked queue).hashtable id = c.q.lookup id := rfl

@[simp] theorem linked_queue (queue : Links ObjId) : (c.linked queue).queue = queue := rfl

inductive Refines : QueueCache μ → Fifo μ → Prop
  | mk {c : Fifo μ} {queue : Links ObjId} (inv : c.Inv) (ends : queue.Ends c.q.keys) : Refines (c.linked queue) c

variable {queue : Links ObjId} {o : FifoObj μ} {req : Request}

theorem Refines.remove (h : c.Inv) (ho : c.q.lookup id = some o) (hends : queue.Ends (c.q.keys.erase id)) :
    Refines ((c.linked queue).cache_remove_obj_base id o) (c.cache_remove_obj_base id o) := by
  have heq : (c.linked queue).cache_remove_obj_base id o = (c.cache_remove_obj_base id o).linked queue := by
    unfold Fifo.linked Fifo.cache_remove_obj_base
    rw [Table.lookup_erase_eq_update]
    rfl
  rw [heq]
  rw [← AList.keys_erase] at hends
  exact ⟨h.remove ho, hends⟩

theorem FIFO_remove_refines (h : Refines s c) (id : ObjId) :
    Refines (s.FIFO_remove id).1 (c.FIFO_remove id).1 ∧ (s.FIFO_remove id).2 = (c.FIFO_remove id).2 := by
  obtain @⟨_, queue, hinv, hends⟩ := h
  unfold FIFO_remove Fifo.FIFO_remove
  rw [linked_hashtable]
  rcases ho : c.q.lookup id with _ | o
  · exact ⟨⟨hinv, hends⟩, rfl⟩
  · exact ⟨.remove hinv ho (hends.remove (AList.mem_keys.1 (Table.mem_of_lookup ho))), rfl⟩

theorem cache_skip_pinned_eq (pin : Pin) (hinv : c.Inv) (hends : queue.Ends c.q.keys) :
    (c.linked queue).cache_skip_pinned pin c.q.keys.getLast? = some (pin.cache_skip_pinned c.q.keys) := by
  unfold cache_skip_pinned Pin.cache_skip_pinned
  cases pin with
  | none => rcases eq_nil_or_concat' c.q.keys with hl | ⟨l, v, hl⟩ <;> simp [hl, Pin.is_pinned]
  | some pred =>
    have hfuel : c.q.keys.reverse.length ≤ c.n_obj.toNat := by
      rw [length_reverse, hinv.n_obj]
      exact (length_map _).le
    have hwalk := hends.prev.seek (fun obj => !Pin.is_pinned (some pred) obj) hfuel
    simp [Fifo.linked, hwalk]

theorem FIFO_evict_refines (h : Refines s c) :
    Option.Rel (fun s' c' => Refines s' c' ∧ ∀ x ∈ c'.q, x ∈ c.q) (s.FIFO_evict pin) (c.FIFO_evict_pinned pin) := by
  obtain @⟨_, queue, hinv, hends⟩ := h
  have hskip := cache_skip_pinned_eq pin hinv hends
  unfold FIFO_evict Fifo.FIFO_evict_pinned
  rw [linked_queue, hends.tail_eq, Option.join_some]
  rcases eq_nil_or_concat' c.q.keys with hnil | ⟨l, x, hl⟩
  · simp only [hnil, Pin.cache_skip_pinned, reverse_nil, find?_nil, getLast?_nil, Option.or_none] at hskip ⊢
    cases pin <;> simp [hskip]
  have hsub : ∀ v, ∀ x ∈ c.q.erase v, x ∈ c.q := fun v x hx => (AList.mem_erase.1 hx).2
  cases pin with
  | none =>
    obtain ⟨o, ho⟩ := Table.exists_lookup (AList.mem_keys.2 (hl ▸ mem_concat_self : x ∈ c.q.keys))
    rw [← Option.some.inj hskip, hl, getLast?_concat]
    simp only [Option.isSome_none, Option.bind_eq_bind, Option.bind_some, linked_hashtable, ho]
    refine .some ⟨.remove hinv ho ?_, hsub x⟩
    rw [hl] at hends ⊢
    rw [erase_append_right _ hends.toHolds.notMem.1, erase_cons_head, append_nil]
    exact hends.unlink_tail
  | some pred =>
    obtain ⟨v, hv, hmem, -⟩ := Pin.cache_skip_pinned_spec (some pred) (hl ▸ concat_ne_nil _ _ : c.q.keys ≠ [])
    obtain ⟨o, ho⟩ := Table.exists_lookup (AList.mem_keys.2 hmem)
    rw [hv] at hskip ⊢
    simp only [Option.isSome_some, if_true, hskip, Option.bind_eq_bind, Option.bind_some, linked_hashtable, ho]
    exact .some ⟨.remove hinv ho (hends.remove hmem), hsub v⟩

theorem FIFO_insert_refines [Inhabited μ] (h : Refines s c) (hout : req.obj_id ∉ c.q) :
    Option.Rel Refines (s.FIFO_insert req) (some (c.FIFO_insert req default)) := by
  obtain @⟨_, queue, hinv, hends⟩ := h
  obtain ⟨q, hq, hleft⟩ := hends.toHolds.prepend (mt AList.mem_keys.2 hout) hends.head_given
  have hkeys : (c.FIFO_insert req default).q.keys = req.obj_id :: c.q.keys := by
    show (c.q.insert _ _).keys = _
    rw [AList.keys_insert, erase_of_not_mem (mt AList.mem_keys.2 hout)]
  have heq : { (c.linked queue).cache_insert_base req with queue := q } = (c.FIFO_insert req default).linked q := by
    unfold Fifo.linked Fifo.FIFO_insert
    rw [Table.lookup_insert_eq_update]
    rfl
  unfold FIFO_insert
  rw [linked_queue, hq]
  rw [← hkeys] at hleft
  exact .some (heq ▸ ⟨hinv.insert default hout, hends.leave hleft⟩)

abbrev Agrees {α : Type} (p : QueueCache μ × α) (q : Fifo μ × α) : Prop := Refines p.1 q.1 ∧ p.2 = q.2

/-- Where nothing is found, the object is not in the queue. -/
def Found (req : Request) (p : QueueCache μ × Bool) (q : Fifo μ × Bool) : Prop := Agrees p q ∧ (p.2 = false → req.obj_id ∉ q.1.q)

theorem LRU_find_refines (h : Refines s c) :
    Option.Rel (Found req) (s.LRU_find req) (some ((Lru.LRU_find c req true).1, (Lru.LRU_find c req true).2.isSome)) := by
  obtain @⟨_, queue, hinv, hends⟩ := h
  unfold LRU_find
  rw [linked_hashtable, linked_queue]
  rcases ho : c.q.lookup req.obj_id with _ | o
  · rw [Lru.LRU_find_miss ho]
    exact .some ⟨⟨⟨hinv, hends⟩, rfl⟩, fun _ => AList.lookup_eq_none.1 ho⟩
  · obtain ⟨l₁, l₂, -, hl, herase⟩ := exists_erase_eq (AList.mem_keys.1 (Table.mem_of_lookup ho))
    obtain ⟨q, hq, hleft⟩ := (hl ▸ hends.toHolds).move_head hends.head_given (.inl hends.tail_given)
    have hsame : { c.linked queue with queue := q } = ({ c with q := c.q.insert req.obj_id o } : Fifo μ).linked q := by
      unfold Fifo.linked
      simp only [Lru.lookup_move_to_head ho]
    have hkeys : (c.q.insert req.obj_id o).keys = req.obj_id :: c.q.keys.erase req.obj_id := AList.keys_insert _
    rw [← herase, ← hkeys] at hleft
    rw [Lru.LRU_find_hit ho, hq]
    exact .some ⟨⟨hsame ▸ ⟨Lru.Inv.move_to_head hinv ho, hends.leave hleft⟩, rfl⟩, Bool.noConfusion⟩

/-! ## Runs -/

theorem get_refines [Inhabited μ] (find : QueueCache μ → Request → Option (QueueCache μ × Bool))
    (find' : Fifo μ → Request → Option (Fifo μ × Bool))
    (hfind : ∀ s c, Refines s c → Option.Rel (Found req) (find s req) (find' c req)) (h : Refines s c) :
    Option.Rel Agrees ((ops pin find).cache_get_base (fun s => s.n_obj.toNat) s req)
      ({ Fifo.ops with find := find', evict := fun c _ => c.FIFO_evict_pinned pin }.cache_get_base
        (fun c => c.q.entries.length) c req) := by
  apply CacheOps.cache_get_base_rel Refines (fun s c => Refines s c ∧ req.obj_id ∉ c.q) _ _ _ _ _ _ h
  · rintro _ c @⟨_, queue, hinv, hends⟩
    have hcount : Refines (Fifo.linked { c with n_req := c.n_req + 1 } queue) { c with n_req := c.n_req + 1 } :=
      ⟨⟨hinv.occupied, hinv.n_obj⟩, hends⟩
    apply rel_imp (hfind _ _ hcount)
    rintro ⟨p, _ | _⟩ q ⟨⟨hpq, heq⟩, hout⟩
    · exact ⟨⟨hpq, hout rfl⟩, heq⟩
    · exact ⟨hpq, heq⟩
  · rintro _ _ ⟨⟨hinv, hends⟩, hout⟩
    refine .some ⟨?_, rfl⟩
    split_ifs
    · exact ⟨⟨hinv, hends⟩, hout⟩
    · exact ⟨hinv, hends⟩
  · rintro _ _ ⟨⟨hinv, hends⟩, hout⟩
    rfl
  · rintro _ c ⟨⟨hinv, hends⟩, hout⟩
    exact congrArg Int.toNat hinv.n_obj
  · rintro s c ⟨h, hout⟩
    exact rel_imp (FIFO_evict_refines h) fun s' c' h' => ⟨h'.1, fun hin => hout (h'.2 _ hin)⟩
  · rintro s c ⟨h, hout⟩
    exact FIFO_insert_refines h hout

/-- The calls, with what the gets and the removals have answered. -/
def answer {σ : Type} (get : Pin → σ → Request → Option (σ × Bool)) (evict : Pin → σ → Option σ)
    (remove : σ → ObjId → σ × Bool) (p : σ × List Bool) : Pin.Call → Option (σ × List Bool)
  | .get pin req => (get pin p.1 req).map fun q => (q.1, p.2 ++ [q.2])
  | .evict pin => (evict pin p.1).map fun s => (s, p.2)
  | .remove id => some ((remove p.1 id).1, p.2 ++ [(remove p.1 id).2])

theorem answer_refines {get : Pin → QueueCache μ → Request → Option (QueueCache μ × Bool)}
    {get' : Pin → Fifo μ → Request → Option (Fifo μ × Bool)}
    (hget : ∀ pin s c req, Refines s c → Option.Rel Agrees (get pin s req) (get' pin c req)) (p : QueueCache μ × List Bool)
    (q : Fifo μ × List Bool) (call : Pin.Call) (h : Agrees p q) :
    Option.Rel Agrees (answer get FIFO_evict FIFO_remove p call) (answer get' Fifo.FIFO_evict_pinned Fifo.FIFO_remove q call) := by
  obtain ⟨s, hits⟩ := p
  obtain ⟨c, _⟩ := q
  obtain ⟨h, rfl⟩ := h
  cases call with
  | get pin req => exact map_rel (hget pin s c req h) fun p q hpq => ⟨hpq.1, congrArg (hits ++ [·]) hpq.2⟩
  | evict pin => exact map_rel (FIFO_evict_refines h) fun s' c' h' => ⟨h'.1, rfl⟩
  | remove id => exact .some ⟨(FIFO_remove_refines h id).1, congrArg (hits ++ [·]) (FIFO_remove_refines h id).2⟩

/-- With any pins, a null pointer is followed, or an assertion fails, only where the cache on lists has nothing to evict. -/
theorem FIFO_LRU_refine [Inhabited μ] (K md : Int) (calls : List Pin.Call) :
    let s : QueueCache μ := { cache_size := K, obj_md_size := md }
    let c : Fifo μ := { cache_size := K, obj_md_size := md }
    Option.Rel Agrees (runs (answer FIFO_get FIFO_evict FIFO_remove) (s, []) calls)
      (runs (answer Fifo.FIFO_get_pinned Fifo.FIFO_evict_pinned Fifo.FIFO_remove) (c, []) calls) ∧
    Option.Rel Agrees (runs (answer LRU_get LRU_evict LRU_remove) (s, []) calls)
      (runs (answer Lru.LRU_get_pinned Lru.LRU_evict_pinned Lru.LRU_remove) (c, []) calls) := by
  intro s c
  have hinit : Agrees (s, ([] : List Bool)) (c, []) := ⟨⟨Fifo.init_inv K md, ⟨⟨rfl, rfl, by simp, by simp⟩, rfl, rfl⟩⟩, rfl⟩
  constructor
  · refine runs_rel (answer_refines fun pin s c req h => ?_) calls hinit
    apply get_refines FIFO_find Fifo.ops.find _ h
    rintro _ _ @⟨c, queue, hinv, hends⟩
    refine .some ⟨⟨⟨hinv, hends⟩, rfl⟩, fun hmiss => AList.lookup_eq_none.1 ?_⟩
    simpa using hmiss
  · refine runs_rel (answer_refines fun pin s c req h => ?_) calls hinit
    exact get_refines LRU_find Lru.ops.find (fun s c h => LRU_find_refines h) h

end QueueCache

end CacheSim
