import CacheSim.Pin

/-!
# Clock (`Clock.c`)

A FIFO queue in which an object that was read goes round once more for each read.
-/

namespace CacheSim.Clock

open Lib List

/-- `cache_t` with `Clock_params_t`. The metadata of an object is its `clock.freq`. -/
structure State where
  fifo : Fifo Int
  max_freq : Int := 1
  init_freq : Int := 0
  n_obj_rewritten : Int := 0
  n_byte_rewritten : Int := 0

/-- `n_bit_counter` sets `max_freq`. Clock never counts metadata. -/
def Clock_init (cache_size : Int) (init_freq : Int) (n_bit_counter : Nat) : State where
  fifo := { cache_size := cache_size }
  max_freq := 2 ^ n_bit_counter - 1
  init_freq := init_freq

variable (s : State)

def Clock_find (req : Request) : State × Bool :=
  match s.fifo.q.lookup req.obj_id with
  | none => (s, false)
  | some obj =>
    (if obj.md < s.max_freq then { s with fifo := s.fifo.set_md req.obj_id obj (obj.md + 1) } else s, true)

def Clock_insert (req : Request) : State := { s with fifo := s.fifo.FIFO_insert req s.init_freq }

def candidate (pin : Pin) (s : State) : Option (Sigma fun _ : ObjId => FifoObj Int) := do
  let id ← pin.cache_skip_pinned s.fifo.q.keys
  let obj ← s.fifo.q.lookup id
  return ⟨id, obj⟩

def second_chance (e : Sigma fun _ : ObjId => FifoObj Int) : State :=
  { s with
    fifo := { s.fifo with q := s.fifo.q.insert e.1 { e.2 with md := e.2.md - 1 } }
    n_obj_rewritten := s.n_obj_rewritten + 1
    n_byte_rewritten := s.n_byte_rewritten + e.2.obj_size }

def reads : Nat := (s.fifo.q.entries.map fun e => e.2.md.toNat).sum

def Clock_evict (pin : Pin) (s : State) : Option State := do
  let obj_to_evict ← candidate pin s
  let (s, obj_to_evict) ← whileLoop (fun w => w.2.2.md ≥ 1)
    (fun w => do
      let s := second_chance w.1 w.2
      let obj_to_evict ← candidate pin s
      return (s, obj_to_evict)) (reads s) (s, obj_to_evict)
  return { s with fifo := s.fifo.cache_remove_obj_base obj_to_evict.1 obj_to_evict.2 }

def to_evict_rounds (queue : List (Sigma fun _ : ObjId => FifoObj Int)) : Nat → Int → Option (Sigma fun _ : ObjId => FifoObj Int)
  | 0, _ => none
  | fuel + 1, n_round => (queue.find? fun obj => !(obj.2.md - n_round ≥ 1)).or (to_evict_rounds queue fuel (n_round + 1))

def Clock_to_evict : Option (Sigma fun _ : ObjId => FifoObj Int) :=
  to_evict_rounds s.fifo.q.entries.reverse (reads s + 1) 0

def Clock_remove (id : ObjId) : State × Bool :=
  let (fifo, removed) := s.fifo.FIFO_remove id
  ({ s with fifo := fifo }, removed)

def ops (pin : Pin) : CacheOps State where
  count_req s := { s with fifo := { s.fifo with n_req := s.fifo.n_req + 1 } }
  find s req := some (Clock_find s req)
  can_insert s req := some (s, !(req.obj_size + s.fifo.obj_md_size > s.fifo.cache_size))
  get_occupied_byte s := s.fifo.occupied_byte
  obj_md_size s := s.fifo.obj_md_size
  cache_size s := s.fifo.cache_size
  evict s _ := Clock_evict pin s
  insert s req := some (Clock_insert s req)

def Clock_get (pin : Pin) (s : State) (req : Request) : Option (State × Bool) :=
  (ops pin).cache_get_base (fun s => s.fifo.q.entries.length) s req

def call : State → Pin.Call → Option State := Pin.call Clock_get Clock_evict Clock_remove

/-! ## An eviction -/

theorem candidate_spec (pin : Pin) {s : State} (h : s.fifo.q.keys ≠ []) :
    ∃ e, candidate pin s = some e ∧ s.fifo.q.lookup e.1 = some e.2 ∧
      ((∃ x ∈ s.fifo.q, pin.is_pinned x = false) → pin.is_pinned e.1 = false) := by
  obtain ⟨v, hskip, hv, hpin⟩ := pin.cache_skip_pinned_spec h
  obtain ⟨o, ho⟩ := Table.exists_lookup (AList.mem_keys.2 hv)
  refine ⟨⟨v, o⟩, by simp [candidate, hskip, ho], ho, ?_⟩
  rintro ⟨x, hx, hfree⟩
  exact hpin ⟨x, AList.mem_keys.1 hx, hfree⟩

variable {e : Sigma fun _ : ObjId => FifoObj Int}

theorem mem_second_chance {s : State} (h : s.fifo.q.lookup e.1 = some e.2)
    (x : ObjId) : x ∈ (second_chance s e).fifo.q ↔ x ∈ s.fifo.q := by
  constructor
  · intro hx
    rcases (AList.mem_insert _).1 hx with rfl | hx
    · exact Table.mem_of_lookup h
    · exact hx
  · exact fun hx => (AList.mem_insert _).2 (.inr hx)

theorem reads_second_chance {s : State} (h : s.fifo.q.lookup e.1 = some e.2)
    (hread : 1 ≤ e.2.md) : reads (second_chance s e) < reads s := by
  have hsum := ((Table.perm_erase h).map fun e => e.2.md.toNat).sum_eq
  have hcons : (s.fifo.q.insert e.1 { e.2 with md := e.2.md - 1 }).entries =
      ⟨e.1, { e.2 with md := e.2.md - 1 }⟩ :: (s.fifo.q.erase e.1).entries := rfl
  unfold reads second_chance
  rw [hcons, hsum, map_cons, map_cons, sum_cons, sum_cons]
  dsimp only
  omega

theorem to_evict_rounds_some {queue : List (Sigma fun _ : ObjId => FifoObj Int)} {obj : Sigma fun _ : ObjId => FifoObj Int}
    (h : obj ∈ queue) {fuel : Nat} {n_round : Int} (hpos : 0 < fuel) (hfuel : obj.2.md - n_round < fuel) :
    ∃ e, to_evict_rounds queue fuel n_round = some e := by
  induction fuel generalizing n_round with
  | zero => omega
  | succ fuel ih =>
    unfold to_evict_rounds
    cases hfind : queue.find? fun obj => !(obj.2.md - n_round ≥ 1) with
    | none =>
      have hread := find?_eq_none.1 hfind obj h
      simp only [Bool.not_eq_true, Bool.not_eq_false', decide_eq_true_eq] at hread
      have hnext : obj.2.md - (n_round + 1) < fuel := by omega
      obtain ⟨e, he⟩ := ih (by omega) hnext
      exact ⟨e, by rw [he, Option.none_or]⟩
    | some e => exact ⟨e, rfl⟩

theorem Clock_to_evict_some {s : State} (h : s.fifo.q.entries ≠ []) : ∃ e, Clock_to_evict s = some e := by
  obtain ⟨obj, l, hl⟩ := exists_cons_of_ne_nil h
  have hmem : obj ∈ s.fifo.q.entries := by simp [hl]
  apply to_evict_rounds_some (mem_reverse.2 hmem) (Nat.succ_pos _)
  have hreads : obj.2.md.toNat ≤ reads s := by
    unfold reads
    rw [hl, map_cons, sum_cons]
    omega
  omega

theorem Clock_evict_honours (pin : Pin) {s : State} (h : s.fifo.q.keys ≠ []) :
    pin.Honours (fun s x => x ∈ s.fifo.q) (Clock_evict pin) s := by
  let I : State × (Sigma fun _ : ObjId => FifoObj Int) → Prop := fun w => (∀ x, x ∈ w.1.fifo.q ↔ x ∈ s.fifo.q) ∧
    w.1.fifo.q.lookup w.2.1 = some w.2.2 ∧ ((∃ x ∈ s.fifo.q, pin.is_pinned x = false) → pin.is_pinned w.2.1 = false)
  have hbody : ∀ w, I w → decide (w.2.2.md ≥ 1) = true → ∃ w', (do
      let s := second_chance w.1 w.2
      let obj_to_evict ← candidate pin s
      return (s, obj_to_evict)) = some w' ∧ I w' ∧ reads w'.1 < reads w.1 := by
    rintro ⟨t, e⟩ ⟨hsame, hlook, -⟩ hread
    have hsame' : ∀ x, x ∈ (second_chance t e).fifo.q ↔ x ∈ s.fifo.q :=
      fun x => (mem_second_chance hlook x).trans (hsame x)
    have hne : (second_chance t e).fifo.q.keys ≠ [] :=
      ne_nil_of_mem (AList.mem_keys.1 ((mem_second_chance hlook e.1).2 (Table.mem_of_lookup hlook)))
    obtain ⟨e', he', hlook', hpin⟩ := candidate_spec pin hne
    refine ⟨(second_chance t e, e'), by simp [he'], ⟨hsame', hlook', ?_⟩, reads_second_chance hlook (by simpa using hread)⟩
    rintro ⟨x, hx, hfree⟩
    exact hpin ⟨x, (hsame' x).2 hx, hfree⟩
  obtain ⟨e, he, hlook, hpin⟩ := candidate_spec pin h
  obtain ⟨⟨t, v⟩, hloop, ⟨hsame, hlook', hpin'⟩, -⟩ :=
    whileLoop_total I (fun w => reads w.1) hbody _ (s, e) ⟨fun _ => .rfl, hlook, hpin⟩ le_rfl
  refine ⟨{ t with fifo := t.fifo.cache_remove_obj_base v.1 v.2 }, v.1, ?_, ?_, ?_, hpin'⟩
  · unfold Clock_evict
    rw [he]
    simp only [Option.bind_eq_bind, Option.bind_some] at hloop ⊢
    rw [hloop]
    rfl
  · exact (hsame _).1 (Table.mem_of_lookup hlook')
  · intro x
    exact AList.mem_erase.trans (and_congr_right fun _ => hsame x)

end CacheSim.Clock

/-!
## Queues of objects of size 1

In a cache without metadata the bytes of such a queue are its objects.
-/

namespace CacheSim

open Lib Option

variable {μ : Type}

structure Blocks (K : Int) (c : Fifo μ) : Prop where
  inv : c.Inv
  size : c.cache_size = K
  md : c.obj_md_size = 0
  unit : ∀ x o, c.q.lookup x = some o → o.obj_size = 1

namespace Blocks

variable {K : Int} {c : Fifo μ}

theorem init (K : Int) : Blocks K { cache_size := K : Fifo μ } := ⟨Fifo.init_inv K 0, rfl, rfl, by simp⟩

theorem occupied (h : Blocks K c) : c.occupied_byte = (c.q.keys.toFinset.card : Int) := by
  have hone : (c.q.weigh fun _ o => c.charge o) = c.q.weigh fun _ _ => 1 := by
    refine congrArg List.sum (List.map_congr_left fun e he => ?_)
    have := h.unit e.1 e.2 (Table.lookup_of_mem_entries he)
    unfold Fifo.charge
    dsimp only
    rw [h.md, this]
    rfl
  rw [h.inv.occupied, hone, Table.weigh_one, List.toFinset_card_of_nodup c.q.keys_nodup, AList.keys, List.keys,
    List.length_map]

variable {o : FifoObj μ} {id : ObjId}

section

variable (h : Blocks K c)
include h

theorem remove (hid : c.q.lookup id = some o) : Blocks K (c.cache_remove_obj_base id o) := by
  refine ⟨h.inv.remove hid, h.size, h.md, fun x o' hx => ?_⟩
  rcases eq_or_ne x id with rfl | hne
  · exact absurd ((AList.lookup_erase x c.q).symm.trans hx) (by simp)
  · exact h.unit x o' ((AList.lookup_erase_ne hne).symm.trans hx)

theorem insert {req : Request} (md : μ) (hmiss : req.obj_id ∉ c.q) (hsize : req.obj_size = 1) :
    Blocks K (c.FIFO_insert req md) := by
  refine ⟨h.inv.insert md hmiss, h.size, h.md, fun x o hx => ?_⟩
  rw [Fifo.lookup_FIFO_insert] at hx
  split_ifs at hx
  · cases hx
    exact hsize
  · exact h.unit x o hx

theorem set_md (hid : c.q.lookup id = some o) (md : μ) : Blocks K (c.set_md id o md) := by
  refine ⟨h.inv.set_md hid md, h.size, h.md, fun x o' hx => ?_⟩
  rw [Fifo.lookup_set_md hid] at hx
  split_ifs at hx
  · cases hx
    exact h.unit id o hid
  · exact h.unit x o' hx

theorem move (hid : c.q.lookup id = some o) (md : μ) :
    Blocks K { c with q := c.q.insert id { o with md := md } } := by
  refine ⟨⟨?_, ?_⟩, h.size, h.md, fun x o' hx => ?_⟩
  · have hw : Table.weigh (fun _ o => c.charge o) (c.q.insert id { o with md := md }) = _ := Table.weigh_update _ hid
    have hsame : c.charge { o with md := md } = c.charge o := rfl
    rw [hsame, Int.sub_add_cancel, ← h.inv.occupied] at hw
    exact hw.symm
  · rw [h.inv.n_obj]
    exact congrArg _ (Table.perm_erase hid).length_eq
  · rcases eq_or_ne x id with rfl | hne
    · rw [AList.lookup_insert] at hx
      cases hx
      exact h.unit x o hid
    · rw [AList.lookup_insert_ne hne] at hx
      exact h.unit x o' hx

theorem count_req : Blocks K { c with n_req := c.n_req + 1 } :=
  { h with inv := ⟨h.inv.occupied, h.inv.n_obj⟩ }

end

variable {pin : Pin}

theorem evict_pinned {c' : Fifo μ} (h : Blocks K c) (hev : c.FIFO_evict_pinned pin = some c') : Blocks K c' := by
  obtain ⟨id, -, hev⟩ := bind_eq_some_iff.1 hev
  obtain ⟨o, ho, hev⟩ := bind_eq_some_iff.1 hev
  cases hev
  exact h.remove ho

theorem clock_evict {s s' : Clock.State} (h : Blocks K s.fifo)
    (hev : Clock.Clock_evict pin s = some s') : Blocks K s'.fifo := by
  let I : Clock.State × (Sigma fun _ : ObjId => FifoObj Int) → Prop := fun w =>
    Blocks K w.1.fifo ∧ w.1.fifo.q.lookup w.2.1 = some w.2.2
  have hcandidate : ∀ (t : Clock.State) e, Blocks K t.fifo → Clock.candidate pin t = some e → I (t, e) := by
    intro t e ht he
    obtain ⟨id, -, he⟩ := bind_eq_some_iff.1 he
    obtain ⟨o, ho, he⟩ := bind_eq_some_iff.1 he
    cases he
    exact ⟨ht, ho⟩
  obtain ⟨e, he, hev⟩ := bind_eq_some_iff.1 hev
  obtain ⟨⟨t, v⟩, hloop, hev⟩ := bind_eq_some_iff.1 hev
  cases hev
  obtain ⟨⟨ht, hv⟩, -⟩ := whileLoop_inv I (by
    rintro ⟨t, e⟩ w ⟨ht, he⟩ - hw
    obtain ⟨e', he', hw⟩ := bind_eq_some_iff.1 hw
    cases hw
    exact hcandidate _ e' (ht.move he _) he') _ _ _ (hcandidate s e h he) hloop
  exact ht.remove hv

end Blocks

end CacheSim
