import CacheSim.Cache
import CacheSim.Lib.Table

/-!
# The FIFO cache (`FIFO.c`)

The objects of its hash table are those of its queue. Nothing is pinned, so a victim is always the
tail.
-/

namespace CacheSim

open Lib List AList Table

/-- An object, with the metadata `μ` of the policy that uses the cache. -/
structure FifoObj (μ : Type) where
  obj_size : Int
  md : μ
deriving DecidableEq, Repr

def copy_cache_obj_to_request {μ : Type} (e : Sigma fun _ : ObjId => FifoObj μ) : Request :=
  { obj_id := e.1, obj_size := e.2.obj_size }

structure Fifo (μ : Type) where
  cache_size : Int
  obj_md_size : Int := 0
  n_req : Int := 0
  occupied_byte : Int := 0
  n_obj : Int := 0
  /-- from `q_head` to `q_tail` -/
  q : Table ObjId (FifoObj μ) := ∅

namespace Fifo

variable {μ : Type} (c : Fifo μ)

def charge (o : FifoObj μ) : Int := o.obj_size + c.obj_md_size

def FIFO_insert (req : Request) (md : μ) : Fifo μ :=
  { c with
    q := c.q.insert req.obj_id { obj_size := req.obj_size, md := md }
    occupied_byte := c.occupied_byte + (req.obj_size + c.obj_md_size)
    n_obj := c.n_obj + 1 }

def FIFO_to_evict : Option (Sigma fun _ : ObjId => FifoObj μ) := c.q.entries.getLast?

def cache_remove_obj_base (id : ObjId) (o : FifoObj μ) : Fifo μ :=
  { c with q := c.q.erase id, occupied_byte := c.occupied_byte - c.charge o, n_obj := c.n_obj - 1 }

/-- `none` when the queue is empty: the code follows a null tail. -/
def FIFO_evict : Option (Fifo μ) := do
  let obj_to_evict ← c.FIFO_to_evict
  return c.cache_remove_obj_base obj_to_evict.1 obj_to_evict.2

def FIFO_remove (id : ObjId) : Fifo μ × Bool :=
  match c.q.lookup id with
  | none => (c, false)
  | some o => (c.cache_remove_obj_base id o, true)

def set_md (id : ObjId) (o : FifoObj μ) (md : μ) : Fifo μ := { c with q := c.q.replace id { o with md := md } }

def ops [Inhabited μ] : CacheOps (Fifo μ) where
  count_req c := { c with n_req := c.n_req + 1 }
  find c req := some (c, (c.q.lookup req.obj_id).isSome)
  can_insert c req := some (c, !(req.obj_size + c.obj_md_size > c.cache_size))
  get_occupied_byte c := c.occupied_byte
  obj_md_size c := c.obj_md_size
  cache_size c := c.cache_size
  evict c _ := c.FIFO_evict
  insert c req := some (c.FIFO_insert req default)

def FIFO_get [Inhabited μ] (req : Request) : Option (Fifo μ × Bool) :=
  ops.cache_get_base (fun c => c.q.entries.length) c req

structure Inv (c : Fifo μ) : Prop where
  occupied : c.occupied_byte = c.q.weigh fun _ o => c.charge o
  n_obj : c.n_obj = c.q.entries.length

theorem init_inv (cache_size obj_md_size : Int) :
    Inv { cache_size := cache_size, obj_md_size := obj_md_size : Fifo μ } := ⟨rfl, rfl⟩

variable {c} {id : ObjId} {o : FifoObj μ} {req : Request} {limit : Int}

theorem Inv.remove (h : c.Inv) (hid : c.q.lookup id = some o) : (c.cache_remove_obj_base id o).Inv := by
  constructor
  · show c.occupied_byte - c.charge o = _
    rw [h.occupied]
    exact (weigh_erase (fun _ o => c.charge o) hid).symm
  · show c.n_obj - 1 = ((c.q.erase id).entries.length : Int)
    have hlen := (perm_erase hid).length_eq
    rw [length_cons] at hlen
    rw [h.n_obj, hlen]
    omega

theorem Inv.insert (h : c.Inv) (md : μ) (hmiss : req.obj_id ∉ c.q) : (c.FIFO_insert req md).Inv := by
  constructor
  · show c.occupied_byte + (req.obj_size + c.obj_md_size) = Table.weigh (fun _ o => c.charge o) (c.q.insert req.obj_id _)
    rw [weigh_insert_of_notMem _ _ hmiss, h.occupied]
    exact Int.add_comm _ _
  · show c.n_obj + 1 = ((c.q.insert req.obj_id _).entries.length : Int)
    rw [entries_insert_of_notMem hmiss, h.n_obj]
    simp

theorem Inv.set_md (h : c.Inv) (hid : c.q.lookup id = some o) (md : μ) : (c.set_md id o md).Inv := by
  constructor
  · have hw := weigh_replace (fun _ o => c.charge o) hid { o with md := md }
    rw [← h.occupied] at hw
    show c.occupied_byte = Table.weigh (fun _ o => c.charge o) (c.q.replace id { o with md := md })
    rw [hw]
    simp [charge]
  · have hlen := (perm_replace hid { o with md := md }).length_eq
    have hcons : (c.q.insert id { o with md := md }).entries.length = (c.q.erase id).entries.length + 1 := rfl
    have herase := (perm_erase hid).length_eq
    rw [length_cons] at herase
    rw [hcons, ← herase] at hlen
    show c.n_obj = ((c.q.replace id { o with md := md }).entries.length : Int)
    rw [hlen, h.n_obj]

theorem lookup_set_md (hid : c.q.lookup id = some o) (md : μ) (x : ObjId) :
    (c.set_md id o md).q.lookup x = if x = id then some { o with md := md } else c.q.lookup x := by
  split_ifs with hx
  · subst hx
    exact lookup_replace hid _
  · exact lookup_replace_ne hid _ hx

theorem lookup_FIFO_insert (req : Request) (md : μ) (x : ObjId) : (c.FIFO_insert req md).q.lookup x =
    if x = req.obj_id then some { obj_size := req.obj_size, md := md } else c.q.lookup x := by
  split_ifs with hx
  · subst hx
    exact lookup_insert _
  · exact lookup_insert_ne hx

theorem FIFO_insert_remove (c : Fifo μ) (req : Request) (md : μ) (h : id ≠ req.obj_id) :
    (c.FIFO_insert req md).FIFO_remove id = ((c.FIFO_remove id).1.FIFO_insert req md, (c.FIFO_remove id).2) := by
  have hlook := (lookup_FIFO_insert (c := c) req md id).trans (if_neg h)
  unfold FIFO_remove
  rw [hlook]
  rcases c.q.lookup id with _ | o
  · rfl
  · simp only [FIFO_insert, cache_remove_obj_base, charge, erase_insert_ne _ _ h, Prod.mk.injEq, Fifo.mk.injEq,
      true_and, and_true]
    omega

theorem FIFO_remove_remove (c : Fifo μ) {x : ObjId} (h : id ≠ x) :
    ((c.FIFO_remove id).1.FIFO_remove x).1 = ((c.FIFO_remove x).1.FIFO_remove id).1 ∧
      ((c.FIFO_remove id).1.FIFO_remove x).2 = (c.FIFO_remove x).2 := by
  have hlook : ∀ {a b : ObjId}, a ≠ b → (c.q.erase a).lookup b = c.q.lookup b := fun hab => lookup_erase_ne hab.symm
  unfold FIFO_remove
  rcases hid : c.q.lookup id with _ | o <;> rcases hx : c.q.lookup x with _ | p <;>
    simp only [hid, hx, cache_remove_obj_base, charge, hlook h, hlook h.symm, erase_erase id x, Fifo.mk.injEq,
      true_and, and_true]
  omega

theorem FIFO_remove_snd (id : ObjId) : (c.FIFO_remove id).2 = (c.q.lookup id).isSome := by
  unfold FIFO_remove
  cases c.q.lookup id <;> rfl

theorem lookup_FIFO_remove (id x : ObjId) : (c.FIFO_remove id).1.q.lookup x = if x = id then none else c.q.lookup x := by
  unfold FIFO_remove
  split_ifs with hx
  · subst hx
    rcases h : c.q.lookup x with _ | o
    · exact h
    · exact lookup_erase x c.q
  · rcases h : c.q.lookup id with _ | o
    · rfl
    · exact lookup_erase_ne hx

@[simp] theorem FIFO_remove_cache_size (id : ObjId) : (c.FIFO_remove id).1.cache_size = c.cache_size := by
  unfold FIFO_remove
  cases c.q.lookup id <;> rfl

@[simp] theorem FIFO_remove_obj_md_size (id : ObjId) : (c.FIFO_remove id).1.obj_md_size = c.obj_md_size := by
  unfold FIFO_remove
  cases c.q.lookup id <;> rfl

theorem occupied_FIFO_remove (h : c.q.lookup id = some o) :
    (c.FIFO_remove id).1.occupied_byte = c.occupied_byte - (o.obj_size + c.obj_md_size) := by
  unfold FIFO_remove
  rw [h]
  rfl

theorem length_FIFO_remove (h : c.q.lookup id = some o) :
    (c.FIFO_remove id).1.q.entries.length + 1 = c.q.entries.length := by
  unfold FIFO_remove
  rw [h]
  exact (perm_erase h).length_eq.symm

theorem length_FIFO_insert (md : μ) (hmiss : c.q.lookup req.obj_id = none) :
    (c.FIFO_insert req md).q.entries.length = c.q.entries.length + 1 := by
  unfold FIFO_insert
  rw [entries_insert_of_notMem (lookup_eq_none.1 hmiss)]
  simp

theorem entries_ne_nil_of_occupied (h : c.Inv) (hocc : 0 < c.occupied_byte) : c.q.entries ≠ [] := by
  intro hnil
  rw [h.occupied, Table.weigh, hnil] at hocc
  simp at hocc

theorem length_le_occupied (h : c.Inv) (hmd : 0 ≤ c.obj_md_size) (hsize : ∀ x o, c.q.lookup x = some o → 1 ≤ o.obj_size) :
    (c.q.entries.length : Int) ≤ c.occupied_byte := by
  have hsum := card_nsmul_le_sum (c.q.entries.map fun e => c.charge e.2) 1 (by
    intro n hn
    obtain ⟨e, he, rfl⟩ := mem_map.1 hn
    have h1 := hsize e.1 e.2 (lookup_of_mem_entries he)
    unfold charge
    omega)
  rw [h.occupied, Table.weigh]
  simpa using hsum

theorem lookup_to_evict {e : Sigma fun _ : ObjId => FifoObj μ} (h : c.FIFO_to_evict = some e) : c.q.lookup e.1 = some e.2 :=
  lookup_of_mem_entries (mem_of_getLast? h)

/-- What an eviction leaves of a queue. -/
structure Less (c' c : Fifo μ) : Prop where
  sub : ∀ x ∈ c'.q, x ∈ c.q
  cache_size : c'.cache_size = c.cache_size
  obj_md_size : c'.obj_md_size = c.obj_md_size
  fewer : c'.q.entries.length < c.q.entries.length

theorem less_of_remove {v : ObjId} (hv : v ∈ c.q) (o : FifoObj μ) : (c.cache_remove_obj_base v o).Less c where
  sub _ hx := (mem_erase.1 hx).2
  cache_size := rfl
  obj_md_size := rfl
  fewer := by
    obtain ⟨o', ho⟩ := exists_lookup hv
    have hlen := (perm_erase ho).length_eq
    rw [length_cons] at hlen
    show (c.q.erase v).entries.length < _
    omega

theorem FIFO_evict_spec (h : c.Inv) (hne : c.q.entries ≠ []) : ∃ c', c.FIFO_evict = some c' ∧ c'.Inv ∧ c'.Less c := by
  have hlast : c.FIFO_to_evict = some (c.q.entries.getLast hne) := getLast?_eq_some_getLast hne
  have hlook := lookup_to_evict hlast
  exact ⟨_, by simp [FIFO_evict, hlast], h.remove hlook, less_of_remove (mem_of_lookup hlook) _⟩

/-- The get of a policy that keeps its objects in one queue. -/
theorem cache_get_base_of_queue {σ : Type} (ops : CacheOps σ) (queue : σ → Fifo μ) (Pre I Done : σ → Prop)
    (hsizes : ∀ s, ops.get_occupied_byte s = (queue s).occupied_byte ∧ ops.obj_md_size s = (queue s).obj_md_size ∧
      ops.cache_size s = (queue s).cache_size)
    (hcan : ∀ s, ops.can_insert s req = some (s, !(req.obj_size + (queue s).obj_md_size > (queue s).cache_size)))
    (hfind : ∀ s, Pre s → ∃ s' hit, ops.find (ops.count_req s) req = some (s', hit) ∧
      if hit then Done s' else I s' ∧ req.obj_id ∉ (queue s').q)
    (hI : ∀ s, I s → (queue s).Inv ∧ Done s)
    (hevict : ∀ s, I s → (queue s).q.entries ≠ [] → ∃ s', ops.evict s req = some s' ∧ I s' ∧ (queue s').Less (queue s))
    (hinsert : ∀ s, I s → req.obj_id ∉ (queue s).q → ∃ s', ops.insert s req = some s' ∧ Done s') {s : σ} (hs : Pre s) :
    ∃ t hit, ops.cache_get_base (fun s => (queue s).q.entries.length) s req = some (t, hit) ∧ Done t := by
  refine CacheOps.cache_get_base_total Pre (fun s => I s ∧ req.obj_id ∉ (queue s).q)
    (fun s => (I s ∧ req.obj_id ∉ (queue s).q) ∧ req.obj_size + (queue s).obj_md_size ≤ (queue s).cache_size) Done
    (fun s => (queue s).q.entries.length) (fun _ _ => le_rfl) hfind ?_ ?_ ?_ hs
  · intro s hmiss
    refine ⟨s, _, hcan s, ?_⟩
    split_ifs with hadm
    · exact ⟨hmiss, by simpa using hadm⟩
    · exact (hI s hmiss.1).2
  · rintro s ⟨⟨hs, hmiss⟩, hroom⟩ hfull
    rw [CacheOps.full_for_iff, (hsizes s).1, (hsizes s).2.1, (hsizes s).2.2] at hfull
    obtain ⟨s', hev, hs', hless⟩ := hevict s hs (entries_ne_nil_of_occupied (hI s hs).1 (by omega))
    refine ⟨s', hev, ⟨⟨hs', fun hx => hmiss (hless.sub _ hx)⟩, ?_⟩, hless.fewer⟩
    rw [hless.cache_size, hless.obj_md_size]
    exact hroom
  · rintro s ⟨⟨hs, hmiss⟩, -⟩ -
    exact hinsert s hs hmiss

theorem FIFO_get_spec [Inhabited μ] (h : c.Inv) (req : Request) :
    ∃ c' hit, c.FIFO_get req = some (c', hit) ∧ c'.Inv ∧ ∀ x ∈ c'.q, x = req.obj_id ∨ x ∈ c.q := by
  refine cache_get_base_of_queue ops (fun d => d) (· = c) (fun d => d.Inv ∧ ∀ x ∈ d.q, x ∈ c.q)
    (fun d => d.Inv ∧ ∀ x ∈ d.q, x = req.obj_id ∨ x ∈ c.q) (fun _ => ⟨rfl, rfl, rfl⟩) (fun _ => rfl) ?_ ?_ ?_ ?_ rfl
  · rintro d rfl
    refine ⟨_, _, rfl, ?_⟩
    have hcount : Fifo.Inv { d with n_req := d.n_req + 1 } := ⟨h.occupied, h.n_obj⟩
    split_ifs with hit
    · exact ⟨hcount, fun x hx => .inr hx⟩
    · exact ⟨⟨hcount, fun x hx => hx⟩, by rwa [lookup_isSome] at hit⟩
  · exact fun d hd => ⟨hd.1, hd.1, fun x hx => .inr (hd.2 x hx)⟩
  · rintro d ⟨hd, hold⟩ hne
    obtain ⟨d', hev, hinv, hless⟩ := FIFO_evict_spec hd hne
    exact ⟨d', hev, ⟨hinv, fun x hx => hold x (hless.sub x hx)⟩, hless⟩
  · rintro d ⟨hd, hold⟩ hmiss
    refine ⟨_, rfl, hd.insert default hmiss, ?_⟩
    intro x hx
    rcases (mem_insert _).1 hx with rfl | hx
    · exact .inl rfl
    · exact .inr (hold x hx)

theorem FIFO_get_lookup [Inhabited μ] {c' : Fifo μ} {hit : Bool} (hget : c.FIFO_get req = some (c', hit)) {x : ObjId}
    (hx : x ≠ req.obj_id) (ho : c'.q.lookup x = some o) : c.q.lookup x = some o := by
  let Kept : Fifo μ → Prop := fun d => d.q.lookup x = some o → c.q.lookup x = some o
  refine CacheOps.cache_get_base_inv Kept Kept Kept ?_ ?_ ?_ ?_ id hget ho
  · intro d d' hit hd hfind
    cases hfind
    split_ifs <;> exact hd
  · intro d d' admitted hd hcan
    cases hcan
    split_ifs <;> exact hd
  · intro d d' hd _ hevict hx'
    obtain ⟨e, -, hevict⟩ := Option.bind_eq_some_iff.1 hevict
    cases hevict
    by_cases hxe : x = e.1
    · subst hxe
      cases (lookup_erase _ _).symm.trans hx'
    · exact hd ((lookup_erase_ne hxe).symm.trans hx')
  · intro d d' hd _ hinsert hx'
    cases hinsert
    exact hd ((lookup_insert_ne hx).symm.trans hx')

theorem FIFO_remove_spec (h : c.Inv) (id : ObjId) :
    (c.FIFO_remove id).1.Inv ∧ ∀ x, x ∈ (c.FIFO_remove id).1.q ↔ x ≠ id ∧ x ∈ c.q := by
  unfold FIFO_remove
  rcases hid : c.q.lookup id with _ | o
  · refine ⟨h, fun x => ⟨fun hx => ⟨?_, hx⟩, fun hx => hx.2⟩⟩
    rintro rfl
    exact (lookup_eq_none.1 hid) hx
  · exact ⟨h.remove hid, fun x => mem_erase⟩

/-! ## What a queue keeps when its oldest objects go -/

def charges (c : Fifo μ) : List Int := (c.q.entries.map fun e => c.charge e.2).reverse

/-- What is left of a queue when the oldest objects go until it holds at most `limit` bytes. -/
def kept (limit : Int) : List Int → List Int
  | [] => []
  | a :: l => if (a :: l).sum ≤ limit then a :: l else kept limit l

theorem kept_of_le {l : List Int} (h : l.sum ≤ limit) : kept limit l = l := by
  cases l with
  | nil => rfl
  | cons a l => exact if_pos h

theorem kept_sum_le {l : List Int} (h : ∀ a ∈ l, 0 ≤ a) : (kept limit l).sum ≤ l.sum := by
  induction l with
  | nil => exact le_rfl
  | cons a l ih =>
    have hl := ih fun b hb => h b (by simp [hb])
    have ha := h a (by simp)
    unfold kept
    split_ifs
    · exact le_rfl
    · rw [sum_cons]
      omega

theorem kept_sum_le_limit (h : 0 ≤ limit) (l : List Int) : (kept limit l).sum ≤ limit := by
  induction l with
  | nil => exact h
  | cons a l ih =>
    unfold kept
    split_ifs with hsum
    · exact hsum
    · exact ih

theorem Inv.charges_sum (h : c.Inv) : c.charges.sum = c.occupied_byte := by
  unfold charges
  rw [sum_reverse, h.occupied]
  rfl

theorem FIFO_evict_charges (hne : c.q.entries ≠ []) :
    ∃ e l, c.FIFO_to_evict = some e ∧ c.q.lookup e.1 = some e.2 ∧ c.q.entries = l ++ [e] ∧
      c.FIFO_evict = some (c.cache_remove_obj_base e.1 e.2) ∧
      c.charges = c.charge e.2 :: (c.cache_remove_obj_base e.1 e.2).charges := by
  obtain ⟨l, e, hl⟩ := (eq_nil_or_concat' _).resolve_left hne
  have hlast : c.FIFO_to_evict = some e := by
    unfold FIFO_to_evict
    rw [hl]
    simp
  have hleft : (c.q.erase e.1).entries = l := erase_last hl
  refine ⟨e, l, hlast, lookup_to_evict hlast, hl, by simp [FIFO_evict, hlast], ?_⟩
  unfold charges cache_remove_obj_base
  rw [hleft, hl, map_append, reverse_append]
  rfl

end Fifo

end CacheSim
