import CacheSim.Fifo
import CacheSim.Lib.Recency

/-!
# The LRU cache (`LRU.c`)

It keeps the queue of `FIFO.c`, and a hit moves the object to the head of it.
-/

namespace CacheSim

open Lib

abbrev Lru (μ : Type) := Fifo μ

namespace Lru

variable {μ : Type} (c : Lru μ)

def LRU_find (req : Request) (update_cache : Bool) : Lru μ × Option (FifoObj μ) :=
  match c.q.lookup req.obj_id with
  | none => (c, none)
  | some cache_obj =>
    (if update_cache then { c with q := c.q.insert req.obj_id cache_obj } else c, some cache_obj)

def LRU_insert (req : Request) (md : μ) : Lru μ := c.FIFO_insert req md

def LRU_to_evict : Option (Sigma fun _ : ObjId => FifoObj μ) := c.FIFO_to_evict

def LRU_evict : Option (Lru μ) := c.FIFO_evict

def LRU_remove (id : ObjId) : Lru μ × Bool := c.FIFO_remove id

def ops [Inhabited μ] : CacheOps (Lru μ) where
  count_req c := { c with n_req := c.n_req + 1 }
  find c req := some ((c.LRU_find req true).1, (c.LRU_find req true).2.isSome)
  can_insert c req := some (c, !(req.obj_size + c.obj_md_size > c.cache_size))
  get_occupied_byte c := c.occupied_byte
  obj_md_size c := c.obj_md_size
  cache_size c := c.cache_size
  evict c _ := c.LRU_evict
  insert c req := some (c.LRU_insert req default)

def LRU_get [Inhabited μ] (req : Request) : Option (Lru μ × Bool) :=
  ops.cache_get_base (fun c => c.q.entries.length) c req

variable {c}

theorem LRU_evict_last {l : List (Sigma fun _ : ObjId => FifoObj μ)} {e : Sigma fun _ : ObjId => FifoObj μ}
    (h : c.q.entries = l ++ [e]) : c.LRU_to_evict = some e ∧
      c.LRU_evict = some (c.cache_remove_obj_base e.1 e.2) ∧ (c.q.erase e.1).entries = l := by
  have hlast : c.FIFO_to_evict = some e := by
    unfold Fifo.FIFO_to_evict
    rw [h]
    simp
  refine ⟨hlast, ?_, Table.erase_last h⟩
  simp [LRU_evict, Fifo.FIFO_evict, hlast]

variable {o : FifoObj μ}

theorem LRU_find_hit {req : Request} (h : c.q.lookup req.obj_id = some o) :
    c.LRU_find req true = ({ c with q := c.q.insert req.obj_id o }, some o) := by
  simp [LRU_find, h]

variable {id : ObjId}

theorem Inv.move_to_head (h : c.Inv) (hid : c.q.lookup id = some o) : Fifo.Inv { c with q := c.q.insert id o } := by
  constructor
  · have hw : Table.weigh (fun _ o => c.charge o) (c.q.insert id o) = _ := Table.weigh_update _ hid
    rw [Int.sub_add_cancel, ← h.occupied] at hw
    exact hw.symm
  · rw [h.n_obj]
    exact congrArg _ (Table.perm_erase hid).length_eq

theorem lookup_move_to_head (hid : c.q.lookup id = some o) (x : ObjId) : (c.q.insert id o).lookup x = c.q.lookup x := by
  rcases eq_or_ne x id with rfl | hx
  · rw [AList.lookup_insert, hid]
  · exact AList.lookup_insert_ne hx

theorem LRU_find_miss {req : Request} (h : c.q.lookup req.obj_id = none) (update_cache : Bool) :
    c.LRU_find req update_cache = (c, none) := by
  simp [LRU_find, h]

theorem LRU_find_probe (req : Request) : c.LRU_find req false = (c, c.q.lookup req.obj_id) := by
  unfold LRU_find
  cases c.q.lookup req.obj_id <;> rfl

theorem LRU_remove_q (id : ObjId) : (c.LRU_remove id).1.q = c.q.erase id := by
  unfold LRU_remove Fifo.FIFO_remove
  rcases hid : c.q.lookup id with _ | o
  · exact (Table.erase_of_notMem (AList.lookup_eq_none.1 hid)).symm
  · rfl

/-! ## A get that misses -/

theorem LRU_get_reject [Inhabited μ] {req : Request} (hmiss : c.q.lookup req.obj_id = none)
    (hlarge : c.cache_size < req.obj_size + c.obj_md_size) :
    c.LRU_get req = some ({ c with n_req := c.n_req + 1 }, false) := by
  have hfind : ops.find (ops.count_req c) req = some ({ c with n_req := c.n_req + 1 }, false) := by
    simp [ops, LRU_find, hmiss]
  apply CacheOps.cache_get_base_reject hfind
  simp [ops, hlarge]

theorem LRU_get_insert [Inhabited μ] (h : c.Inv) {req : Request} (hmiss : c.q.lookup req.obj_id = none)
    (hroom : req.obj_size + c.obj_md_size ≤ c.cache_size) :
    ∃ c', c.LRU_get req = some (c', false) ∧ c'.Inv ∧ c'.cache_size = c.cache_size ∧ c'.obj_md_size = c.obj_md_size ∧
      c'.q.lookup req.obj_id = some { obj_size := req.obj_size, md := default } ∧
      (∀ x o, x ≠ req.obj_id → c'.q.lookup x = some o → c.q.lookup x = some o) ∧
      c'.occupied_byte =
        (Fifo.kept (c.cache_size - (req.obj_size + c.obj_md_size)) c.charges).sum + (req.obj_size + c.obj_md_size) := by
  set limit := c.cache_size - (req.obj_size + c.obj_md_size) with hlimit
  let I : Lru μ → Prop := fun d => d.Inv ∧ (∀ x o, d.q.lookup x = some o → c.q.lookup x = some o) ∧
    d.cache_size = c.cache_size ∧ d.obj_md_size = c.obj_md_size ∧ Fifo.kept limit d.charges = Fifo.kept limit c.charges
  have hbody : ∀ d, I d → ops.full_for req d = true →
      ∃ d', ops.evict d req = some d' ∧ I d' ∧ d'.q.entries.length < d.q.entries.length := by
    rintro d ⟨hd, hsub, hcs, hmd, hkept⟩ hfull
    rw [CacheOps.full_for_iff] at hfull
    simp only [ops] at hfull
    obtain ⟨e, l, -, hlook, -, hev, hch⟩ := Fifo.FIFO_evict_charges
      (Fifo.entries_ne_nil_of_occupied hd (by omega))
    refine ⟨d.cache_remove_obj_base e.1 e.2, hev, ⟨hd.remove hlook, ?_, hcs, hmd, ?_⟩, ?_⟩
    · intro x o hx
      apply hsub x o
      by_cases hxe : x = e.1
      · subst hxe
        exact absurd hx (by simp [Fifo.cache_remove_obj_base])
      · rwa [← AList.lookup_erase_ne hxe]
    · rw [← hkept, hch]
      have hsum := hd.charges_sum
      rw [hch] at hsum
      exact (if_neg (by omega)).symm
    · have hlen := (Table.perm_erase hlook).length_eq
      rw [List.length_cons] at hlen
      show (d.q.erase e.1).entries.length < _
      omega
  have hstart : I { c with n_req := c.n_req + 1 } := ⟨⟨h.occupied, h.n_obj⟩, fun _ _ ho => ho, rfl, rfl, rfl⟩
  obtain ⟨d, hloop, ⟨hd, hsub, hcs, hmd, hkept⟩, hexit⟩ :=
    whileLoop_total I (fun d => d.q.entries.length) hbody _ _ hstart le_rfl
  rw [CacheOps.full_for_false_iff] at hexit
  simp only [ops] at hexit
  have hgone : d.q.lookup req.obj_id = none := by
    rcases hx : d.q.lookup req.obj_id with _ | o
    · rfl
    · exact absurd (hsub _ o hx) (by simp [hmiss])
  refine ⟨d.LRU_insert req default, ?_, hd.insert default (AList.lookup_eq_none.1 hgone), hcs, hmd, ?_, ?_, ?_⟩
  · have hfind : ops.find (ops.count_req c) req = some ({ c with n_req := c.n_req + 1 }, false) := by
      simp [ops, LRU_find, hmiss]
    refine CacheOps.cache_get_base_insert hfind ?_ hloop rfl
    simpa [ops] using hroom
  · exact (Fifo.lookup_FIFO_insert req default _).trans (if_pos rfl)
  · intro x o hx ho
    exact hsub x o (((Fifo.lookup_FIFO_insert req default x).trans (if_neg hx)).symm.trans ho)
  · have hsum : d.charges.sum ≤ limit := by
      rw [hd.charges_sum]
      omega
    rw [Fifo.kept_of_le hsum] at hkept
    rw [← hkept, hd.charges_sum, ← hmd]
    rfl

end Lru

end CacheSim

/-!
## LRU is a stack algorithm

With objects of one size a cache holds the objects that were requested last. A larger cache holds
those of a smaller one, and older ones after them.
-/

namespace CacheSim.Lru

open Lib List AList

variable {c : Lru Unit} {n : Nat} {req : Request}

def LRU_init (cache_size : Int) (consider_obj_metadata : Bool) : Lru Unit :=
  { cache_size := cache_size, obj_md_size := if consider_obj_metadata then 16 else 0 }

structure Slots (n : Nat) (c : Lru Unit) : Prop where
  inv : c.Inv
  cache_size : c.cache_size = n
  md_size : c.obj_md_size = 0
  size : ∀ x o, c.q.lookup x = some o → o.obj_size = 1
  length_le : c.q.entries.length ≤ n

theorem init_slots (n : Nat) : Slots n (LRU_init n false) :=
  ⟨Fifo.init_inv n 0, rfl, rfl, by simp [LRU_init], Nat.zero_le n⟩

theorem Slots.occupied (h : Slots n c) : c.occupied_byte = c.q.entries.length := by
  have hone : c.q.entries.map (fun e => c.charge e.2) = c.q.entries.map fun _ => (1 : Int) := by
    apply map_congr_left
    intro e he
    rw [Fifo.charge, h.md_size, h.size e.1 e.2 (Table.lookup_of_mem_entries he)]
    rfl
  rw [h.inv.occupied, Table.weigh, hone]
  simp

theorem Slots.count_req (h : Slots n c) : Slots n (ops.count_req c) :=
  { h with inv := ⟨h.inv.occupied, h.inv.n_obj⟩ }

theorem length_keys (c : Lru Unit) : c.q.keys.length = c.q.entries.length := length_map _

section

variable (h : Slots n c)
include h

theorem Slots.hit (hin : req.obj_id ∈ c.q) :
    ∃ c', c.LRU_get req = some (c', true) ∧ Slots n c' ∧ c'.q.keys = touch c.q.keys req.obj_id := by
  obtain ⟨o, ho⟩ := Table.exists_lookup hin
  have hfind : ops.find (ops.count_req c) req = some ({ c with n_req := c.n_req + 1, q := c.q.insert req.obj_id o }, true) := by
    simp [ops, LRU_find, ho]
  have hlen : (c.q.insert req.obj_id o).entries.length = c.q.entries.length := (Table.perm_erase ho).length_eq.symm
  have hinv := Inv.move_to_head h.inv ho
  refine ⟨_, CacheOps.cache_get_base_hit hfind, ⟨⟨hinv.occupied, hinv.n_obj⟩, h.cache_size, h.md_size, ?_, ?_⟩, keys_insert _⟩
  · intro x o' hx
    exact h.size x o' ((lookup_move_to_head ho x).symm.trans hx)
  · exact hlen.le.trans h.length_le

theorem Slots.insert (hout : req.obj_id ∉ c.q) (hroom : c.q.entries.length < n) (hsize : req.obj_size = 1) :
    Slots n (c.LRU_insert req ()) where
  __ := h
  inv := h.inv.insert () hout
  size := by
    intro x o hx
    rw [LRU_insert, Fifo.lookup_FIFO_insert] at hx
    split_ifs at hx
    · cases hx
      exact hsize
    · exact h.size x o hx
  length_le := by
    rw [LRU_insert, Fifo.length_FIFO_insert () (AList.lookup_eq_none.2 hout)]
    exact hroom

theorem Slots.evict (hne : c.q.entries ≠ []) :
    ∃ c', c.LRU_evict = some c' ∧ Slots n c' ∧ c'.q.keys = c.q.keys.dropLast ∧ c'.q.entries.length + 1 = c.q.entries.length := by
  obtain ⟨e, l, -, hlook, hl, hevict, -⟩ := Fifo.FIFO_evict_charges hne
  have hleft : (c.q.erase e.1).entries = l := Table.erase_last hl
  have hlen : (c.cache_remove_obj_base e.1 e.2).q.entries.length + 1 = c.q.entries.length := by
    rw [hl, length_append]
    exact congrArg (fun l => l.length + 1) hleft
  refine ⟨_, hevict, ⟨h.inv.remove hlook, h.cache_size, h.md_size, ?_, ?_⟩, ?_, hlen⟩
  · intro x o hx
    rcases eq_or_ne x e.1 with rfl | hne
    · simp [Fifo.cache_remove_obj_base] at hx
    · exact h.size x o ((AList.lookup_erase_ne hne).symm.trans hx)
  · have := h.length_le
    omega
  · show (c.q.erase e.1).entries.keys = c.q.entries.keys.dropLast
    rw [hleft, hl]
    simp

theorem Slots.miss (hn : 0 < n) (hout : req.obj_id ∉ c.q) (hsize : req.obj_size = 1) :
    ∃ c', c.LRU_get req = some (c', false) ∧ Slots n c' ∧ c'.q.keys = (touch c.q.keys req.obj_id).take n := by
  have hnone := AList.lookup_eq_none.2 hout
  have hfind : ops.find (ops.count_req c) req = some (ops.count_req c, false) := by simp [ops, LRU_find, hnone]
  have hcan : ops.can_insert (ops.count_req c) req = some (ops.count_req c, true) := by
    have hfit : ¬ req.obj_size + c.obj_md_size > c.cache_size := by
      rw [hsize, h.md_size, h.cache_size]
      omega
    simp [ops, hfit]
  have hfull : ∀ d : Lru Unit, Slots n d → ops.full_for req d = decide (n ≤ d.q.entries.length) := by
    intro d hd
    rw [Bool.eq_iff_iff, CacheOps.full_for_iff, decide_eq_true_iff]
    simp only [ops]
    rw [hd.occupied, hd.md_size, hd.cache_size, hsize]
    omega
  have hkeys : c.q.keys.erase req.obj_id = c.q.keys := erase_of_not_mem hout
  have hcount := h.count_req
  by_cases hroom : c.q.entries.length < n
  · have hloop : whileLoop (ops.full_for req) (ops.evict · req) c.q.entries.length (ops.count_req c) = some (ops.count_req c) := by
      apply whileLoop_stop
      rw [hfull _ hcount]
      simpa [ops] using hroom
    refine ⟨_, CacheOps.cache_get_base_insert hfind hcan hloop rfl, hcount.insert hout hroom hsize, ?_⟩
    rw [touch, hkeys, take_of_length_le]
    · exact (keys_insert _).trans (congrArg _ hkeys)
    · rw [List.length_cons, length_keys]
      exact hroom
  · have hlen : c.q.entries.length = n := le_antisymm h.length_le (not_lt.1 hroom)
    obtain ⟨d, hevict, hd, hdkeys, hdlen⟩ := hcount.evict (ne_nil_of_length_pos (by show 0 < c.q.entries.length; omega))
    have hdlen' : d.q.entries.length + 1 = n := hdlen.trans hlen
    have hdkeys' : d.q.keys = c.q.keys.dropLast := hdkeys
    have hdout : req.obj_id ∉ d.q := by
      intro hin
      rw [AList.mem_keys, hdkeys'] at hin
      exact hout (AList.mem_keys.2 (mem_of_mem_dropLast hin))
    have hloop : whileLoop (ops.full_for req) (ops.evict · req) c.q.entries.length (ops.count_req c) = some d := by
      obtain ⟨k, hk⟩ : ∃ k, c.q.entries.length = k + 1 := ⟨n - 1, by omega⟩
      have hcond : ops.full_for req (ops.count_req c) = true := (hfull _ hcount).trans (decide_eq_true hlen.ge)
      rw [hk, whileLoop, if_pos hcond]
      refine Option.bind_eq_some_iff.2 ⟨d, hevict, ?_⟩
      apply whileLoop_stop
      rw [hfull _ hd]
      simp only [decide_eq_false_iff_not]
      omega
    refine ⟨_, CacheOps.cache_get_base_insert hfind hcan hloop rfl, hd.insert hdout (by omega) hsize, ?_⟩
    have hderase : d.q.keys.erase req.obj_id = d.q.keys := erase_of_not_mem hdout
    rw [touch, hkeys]
    obtain ⟨k, rfl⟩ : ∃ k, n = k + 1 := ⟨n - 1, by omega⟩
    rw [take_succ_cons]
    refine (keys_insert _).trans ?_
    rw [hderase, hdkeys', dropLast_eq_take, length_keys, hlen, Nat.add_sub_cancel]

theorem Slots.get (hsize : req.obj_size = 1) :
    ∃ c' hit, c.LRU_get req = some (c', hit) ∧ Slots n c' ∧ (hit = true ↔ req.obj_id ∈ c.q.keys) ∧
      c'.q.keys = (touch c.q.keys req.obj_id).take n := by
  rcases Nat.eq_zero_or_pos n with rfl | hn
  · -- nothing fits into a cache of size 0
    have hnil : c.q.keys = [] := eq_nil_of_length_eq_zero (Nat.le_zero.1 ((length_keys c).trans_le h.length_le))
    have hmiss : c.q.lookup req.obj_id = none := by
      rw [AList.lookup_eq_none, AList.mem_keys, hnil]
      exact not_mem_nil
    refine ⟨_, false, LRU_get_reject hmiss ?_, h.count_req, by simp [hnil], hnil⟩
    rw [h.cache_size, h.md_size, hsize]
    decide
  by_cases hin : req.obj_id ∈ c.q
  · obtain ⟨c', hget, hslots, hkeys⟩ := h.hit hin
    refine ⟨c', true, hget, hslots, by simpa using AList.mem_keys.1 hin, ?_⟩
    rw [hkeys, take_of_length_le]
    rw [← hkeys, length_keys]
    exact hslots.length_le
  · obtain ⟨c', hget, hslots, hkeys⟩ := h.miss hn hin hsize
    exact ⟨c', false, hget, hslots, by simpa using fun h => hin (AList.mem_keys.2 h), hkeys⟩

end

/-! ## Runs -/

def step (c : Lru Unit) (req : Request) : Option (Lru Unit) := (c.LRU_get req).map (·.1)

def ids (reqs : List Request) : List ObjId := reqs.map fun r => r.obj_id

theorem run_recency (n : Nat) (past : List Request) (hunit : ∀ r ∈ past, r.obj_size = 1) :
    ∃ c, runs step (LRU_init n false) past = some c ∧ Slots n c ∧ c.q.keys = (recency (ids past)).take n := by
  induction past using List.reverseRecOn with
  | nil => exact ⟨_, rfl, init_slots n, by simp [LRU_init, ids, recency]⟩
  | append_singleton past req ih =>
    obtain ⟨c, hrun, hslots, hkeys⟩ := ih fun r hr => hunit r (by simp [hr])
    obtain ⟨c', hit, hget, hslots', -, hkeys'⟩ := hslots.get (hunit req (by simp))
    refine ⟨c', ?_, hslots', ?_⟩
    · rw [runs_append, hrun]
      simp [runs_cons, step, hget]
    · have hids : ids (past ++ [req]) = ids past ++ [req.obj_id] := by simp [ids]
      rw [hkeys', hkeys, take_touch, hids, recency_concat]
      rfl

/-- The reuse of an object is a hit if fewer others than the cache has slots came in between; the
smaller cache holds the most recent objects of the larger one. -/
theorem LRU_stack_property {c₁ c₂ : Nat} (_hc : 1 ≤ c₁) (hle : c₁ ≤ c₂) (past : List Request) (req : Request)
    (hunit : ∀ r ∈ past ++ [req], r.obj_size = 1) :
    ∃ s₁ s₂ t hit, runs step (LRU_init c₁ false) past = some s₁ ∧ runs step (LRU_init c₂ false) past = some s₂ ∧
      s₁.LRU_get req = some (t, hit) ∧
      (hit = true ↔ req.obj_id ∈ ids past ∧ (since (ids past) req.obj_id).toFinset.card < c₁) ∧
      (∀ x ∈ s₁.q, x ∈ s₂.q) ∧ s₁.q.keys = s₂.q.keys.take c₁ := by
  have hpast : ∀ r ∈ past, r.obj_size = 1 := fun r hr => hunit r (by simp [hr])
  obtain ⟨s₁, hrun1, hslots1, hkeys1⟩ := run_recency c₁ past hpast
  obtain ⟨s₂, hrun2, -, hkeys2⟩ := run_recency c₂ past hpast
  obtain ⟨t, hit, hget, -, hhit, -⟩ := hslots1.get (hunit req (by simp))
  have htake : s₁.q.keys = s₂.q.keys.take c₁ := by rw [hkeys1, hkeys2, take_take, min_eq_left hle]
  refine ⟨s₁, s₂, t, hit, hrun1, hrun2, hget, ?_, ?_, htake⟩
  · rw [hhit, hkeys1, mem_take_recency]
  · intro x hx
    rw [AList.mem_keys, htake] at hx
    exact AList.mem_keys.2 (mem_of_mem_take hx)

theorem LRU_stack_property_of_three :
    ∃ s₁ s₂ t hit, runs step (LRU_init 2 false) [{ obj_id := 1 }, { obj_id := 2 }, { obj_id := 3 }] = some s₁ ∧
      runs step (LRU_init 3 false) [{ obj_id := 1 }, { obj_id := 2 }, { obj_id := 3 }] = some s₂ ∧
      s₁.LRU_get { obj_id := 2 } = some (t, hit) ∧
      (hit = true ↔ 2 ∈ [1, 2, 3] ∧ (since [1, 2, 3] 2).toFinset.card < 2) ∧
      (∀ x ∈ s₁.q, x ∈ s₂.q) ∧ s₁.q.keys = s₂.q.keys.take 2 :=
  LRU_stack_property (by decide) (by decide) [{ obj_id := 1 }, { obj_id := 2 }, { obj_id := 3 }] { obj_id := 2 } (by simp)

/-! ## Hits -/

def hits : Lru Unit → List ObjId → Option Nat
  | _, [] => some 0
  | c, id :: trace => do
    let (c, hit) ← c.LRU_get { obj_id := id }
    let n ← hits c trace
    return n + if hit then 1 else 0

theorem Slots.hits (h : Slots n c) {past : List ObjId} (hkeys : c.q.keys = (recency past).take n) (trace : List ObjId) :
    Lru.hits c trace = some ((along stack_dist past trace).countP fun d => d.any (· < n)) := by
  induction trace generalizing c past with
  | nil => rfl
  | cons x trace ih =>
    have hsize : ({ obj_id := x } : Request).obj_size = 1 := rfl
    obtain ⟨c', hit, hget, hslots, hhit, hkeys'⟩ := h.get hsize
    have hrec : c'.q.keys = (recency (past ++ [x])).take n := by
      rw [hkeys', hkeys, take_touch, recency_concat]
      rfl
    have hdist : hit = (stack_dist past x).any (· < n) := by
      rw [Bool.eq_iff_iff, hhit, hkeys, mem_take_recency, stack_dist]
      split_ifs with hx <;> simp [hx]
    rw [Lru.hits, hget, along, countP_cons, ← hdist]
    simp [ih hslots hrec]

theorem hits_eq (n : Nat) (trace : List ObjId) :
    hits (LRU_init n false) trace = some ((stack_dists trace).countP fun d => d.any (· < n)) :=
  (init_slots n).hits (by simp [LRU_init, recency]) trace

/-- A larger cache never hits less. -/
theorem hits_mono {m n : Nat} (h : m ≤ n) (trace : List ObjId) :
    ∃ k l, hits (LRU_init m false) trace = some k ∧ hits (LRU_init n false) trace = some l ∧ k ≤ l := by
  refine ⟨_, _, hits_eq m trace, hits_eq n trace, countP_mono_left ?_⟩
  intro d _ hd
  cases d with
  | none => cases hd
  | some x => exact decide_eq_true ((of_decide_eq_true hd).trans_le h)

theorem hits_mono_of_two : ∃ k l, hits (LRU_init 1 false) [1, 2, 1] = some k ∧ hits (LRU_init 2 false) [1, 2, 1] = some l ∧ k ≤ l :=
  hits_mono (by decide) [1, 2, 1]

end CacheSim.Lru
