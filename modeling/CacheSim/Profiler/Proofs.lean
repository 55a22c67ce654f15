import CacheSim.Profiler.Model
import Mathlib.Algebra.BigOperators.Intervals
import Mathlib.Tactic.Ring

/-!
# The profiler and the LRU cache

The times in the tree are those of the last requests.
-/

namespace CacheSim.Profiler

open Lib List Option Finset

variable {s : State} {past trace : List ObjId}

structure Inv (past : List ObjId) (s : State) : Prop where
  lookup : ∀ x, s.hash_table.lookup x = last_idx past x
  mem_tree : ∀ j, 0 < j → (j ∈ s.splay_tree ↔ ∃ x, last_idx past x = some j)

theorem init_inv : Inv [] {} := ⟨by simp [last_idx], by simp [last_idx]⟩

def distance (past : List ObjId) (x : ObjId) : Int := ((stack_dist past x).map Int.ofNat).getD (-1)

def profiled (past : List ObjId) (x : ObjId) : Int := if last_idx past x = some 0 then -1 else distance past x

theorem distance_first {x : ObjId} (h : last_idx past x = none) : distance past x = -1 := by
  have hx : x ∉ past := by
    intro hx
    simpa [h] using last_idx_isSome.2 hx
  simp [distance, stack_dist, hx]

theorem distance_again {x : ObjId} {i : Nat} (h : last_idx past x = some i) : distance past x = (since past x).toFinset.card := by
  have hx : x ∈ past := last_idx_isSome.1 (by simp [h])
  simp [distance, stack_dist, hx]

section

variable (h : Inv past s)
include h

theorem Inv.lookup_time (x : ObjId) :
    g_hash_table_lookup s.hash_table x = (last_idx past x).filter (· ≠ 0) := by
  rw [g_hash_table_lookup, h.lookup]

theorem Inv.lookup_insert (x y : ObjId) :
    (s.hash_table.insert x past.length).lookup y = last_idx (past ++ [x]) y := by
  rw [last_idx_concat]
  split_ifs with hxy
  · rw [hxy, AList.lookup_insert]
  · rw [AList.lookup_insert_ne (Ne.symm hxy), h.lookup]

theorem Inv.add_req (x : ObjId) :
    ∃ s', get_stack_dist_add_req s x past.length = (s', profiled past x) ∧ Inv (past ++ [x]) s' := by
  unfold get_stack_dist_add_req
  rw [h.lookup_time]
  have htimes : ∀ j, (∃ y, last_idx (past ++ [x]) y = some j) ↔ j = past.length ∨ ∃ y ≠ x, last_idx past y = some j := by
    intro j
    constructor
    · rintro ⟨y, hy⟩
      rw [last_idx_concat] at hy
      split_ifs at hy with hxy
      · exact .inl (some.inj hy).symm
      · exact .inr ⟨y, Ne.symm hxy, hy⟩
    · rintro (rfl | ⟨y, hne, hy⟩)
      · exact ⟨x, by simp [last_idx_concat]⟩
      · exact ⟨y, by rw [last_idx_concat, if_neg (Ne.symm hne), hy]⟩
  by_cases hlost : last_idx past x = none ∨ last_idx past x = some 0
  · have hnone : (last_idx past x).filter (· ≠ 0) = none := by
      rcases hlost with hl | hl <;> simp [hl]
    have hdist : profiled past x = -1 := by
      rcases hlost with hl | hl
      · simp [profiled, distance_first hl]
      · simp [profiled, hl]
    rw [hnone, hdist]
    refine ⟨_, rfl, fun y => h.lookup_insert x y, ?_⟩
    intro j hj
    rw [mem_insert, h.mem_tree j hj, htimes]
    apply or_congr_right
    apply exists_congr
    intro y
    constructor
    · intro hy
      refine ⟨?_, hy⟩
      rintro rfl
      rcases hlost with hl | hl <;> rw [hl] at hy <;> cases hy
      exact lt_irrefl 0 hj
    · exact And.right
  · push Not at hlost
    obtain ⟨i, hi⟩ := ne_none_iff_exists'.1 hlost.1
    have hi0 : 0 < i := by
      apply Nat.pos_of_ne_zero
      rintro rfl
      exact hlost.2 hi
    have hsome : (last_idx past x).filter (· ≠ 0) = some i := by simp [hi, hi0.ne']
    have hdist : profiled past x = right_of s.splay_tree i := by
      have hcard := card_since hi s.splay_tree fun j hj => h.mem_tree j (hi0.trans hj)
      rw [profiled, if_neg hlost.2, distance_again hi, right_of, hcard]
    rw [hsome, hdist]
    refine ⟨_, rfl, fun y => h.lookup_insert x y, ?_⟩
    intro j hj
    rw [mem_insert, mem_erase, h.mem_tree j hj, htimes]
    apply or_congr_right
    constructor
    · rintro ⟨hne, y, hy⟩
      refine ⟨y, ?_, hy⟩
      rintro rfl
      exact hne (some.inj (hy.symm.trans hi))
    · rintro ⟨y, hne, hy⟩
      refine ⟨?_, y, hy⟩
      rintro rfl
      exact hne (last_idx_inj hy hi)

theorem Inv.dists (trace : List ObjId) : dists s past.length trace = along profiled past trace := by
  induction trace generalizing past s with
  | nil => rfl
  | cons x trace ih =>
    obtain ⟨s', hstep, hinv⟩ := h.add_req x
    rw [Profiler.dists, hstep, along]
    have htail := ih hinv
    rw [length_append, length_singleton] at htail
    exact congrArg _ htail

end

theorem dists_eq (trace : List ObjId) : dists {} 0 trace = along profiled [] trace := init_inv.dists trace

def FirstOnce (trace : List ObjId) : Prop := ∀ x l, trace = x :: l → x ∉ l

theorem profiled_eq_distance (h : FirstOnce trace) {l1 l2 : List ObjId} {x : ObjId} (htrace : trace = l1 ++ x :: l2) :
    profiled l1 x = distance l1 x := by
  rw [profiled, if_neg]
  intro hzero
  obtain ⟨l, rfl, -⟩ := last_idx_eq_zero.1 hzero
  exact h x (l ++ x :: l2) htrace (by simp)

theorem exists_profiled_lost (h : ¬ FirstOnce trace) :
    ∃ l1 x l2, trace = l1 ++ x :: l2 ∧ profiled l1 x = -1 ∧ 0 ≤ distance l1 x := by
  unfold FirstOnce at h
  push Not at h
  obtain ⟨x, l, rfl, hx⟩ := h
  obtain ⟨l1, l2, rfl, hnew⟩ := eq_append_cons_of_mem hx
  have hzero : last_idx (x :: l1) x = some 0 := last_idx_eq_zero.2 ⟨l1, rfl, hnew⟩
  refine ⟨x :: l1, x, l2, rfl, by simp [profiled, hzero], ?_⟩
  rw [distance_again hzero]
  exact Int.natCast_nonneg _

theorem neg_one_le_distance (past : List ObjId) (x : ObjId) : -1 ≤ distance past x := by
  unfold distance
  cases stack_dist past x with
  | none => simp
  | some d =>
    exact (by decide : (-1 : Int) ≤ 0).trans (Int.natCast_nonneg d)

theorem get_stack_dist_eq_iff (trace : List ObjId) :
    get_stack_dist trace = some (along distance [] trace) ↔ FirstOnce trace ∧ ∀ d, some d ∈ stack_dists trace → d < 2 ^ 31 := by
  unfold get_stack_dist
  rw [dists_eq]
  constructor
  · intro h
    split_ifs at h
    rw [some.injEq, map_along, along_eq_iff] at h
    constructor
    · by_contra hagain
      obtain ⟨l1, x, l2, htrace, hlost, hdist⟩ := exists_profiled_lost hagain
      have hx := h l1 x l2 htrace
      rw [nil_append, hlost] at hx
      rw [← hx] at hdist
      revert hdist
      decide
    · intro d hd
      obtain ⟨l1, x, l2, htrace, hdist⟩ := mem_along.1 hd
      have hx := h l1 x l2 htrace
      have hlt : (profiled ([] ++ l1) x).bmod (2 ^ 32) < _ := Int.bmod_lt (by decide)
      rw [hx, distance, hdist] at hlt
      norm_num at hlt
      omega
  · rintro ⟨hfirst, hsmall⟩
    have hcode : along profiled [] trace = along distance [] trace :=
      along_eq_iff.2 fun l1 x l2 htrace => profiled_eq_distance hfirst htrace
    have hbound : ∀ d ∈ along distance [] trace, -1 ≤ d ∧ d < 2 ^ 31 := by
      intro d hd
      obtain ⟨l1, x, l2, htrace, rfl⟩ := mem_along.1 hd
      refine ⟨neg_one_le_distance _ _, ?_⟩
      unfold distance
      cases hk : stack_dist ([] ++ l1) x with
      | none => simp
      | some k =>
        have := hsmall k (mem_along.2 ⟨l1, x, l2, htrace, hk⟩)
        simp only [map_some, getD_some, Int.ofNat_eq_natCast]
        omega
    rw [hcode, if_neg, map_congr_left, List.map_id]
    · intro d hd
      obtain ⟨hlo, hhi⟩ := hbound d hd
      apply Int.bmod_eq_of_le <;> norm_num <;> omega
    · simp only [List.any_eq_true, decide_eq_true_eq, not_exists, not_and]
      intro d hd
      have := (hbound d hd).2
      omega

/-! ## The hit counts -/

def counted (size i : Nat) (stack_dist : Int) : Bool :=
  stack_dist ≠ -1 ∧ stack_dist + 1 ≤ size ∧ (stack_dist + 1).toNat = i

theorem foldl_count_dist (size : Nat) (l : List Int) (a : Nat → Int) (i : Nat) :
    l.foldl (count_dist size) a i = a i + l.countP (counted size i) := by
  induction l generalizing a with
  | nil => simp
  | cons d l ih =>
    have hstep : count_dist size a d i = a i + if counted size i d then 1 else 0 := by
      unfold count_dist counted
      by_cases hd : d ≠ -1 ∧ d + 1 ≤ size
      · rw [if_neg hd.1, if_pos hd.2, Function.update_apply]
        split_ifs <;> simp_all
      · have hout : ¬ (d ≠ -1 ∧ d + 1 ≤ size ∧ (d + 1).toNat = i) := fun h => hd ⟨h.1, h.2.1⟩
        rw [decide_eq_false hout, if_neg Bool.false_ne_true, add_zero]
        split_ifs with h1 h2
        · rfl
        · exact absurd ⟨h1, h2⟩ hd
        · rfl
    rw [foldl_cons, ih, hstep, countP_cons]
    split_ifs <;> push_cast <;> ring

theorem foldl_prefix_sum (size : Nat) (a : Nat → Int) (i : Nat) :
    (List.range size).foldl (fun a i => Function.update a (i + 1) (a (i + 1) + a i)) a i =
      if i ≤ size then ∑ j ∈ Finset.range (i + 1), a j else a i := by
  induction size generalizing i with
  | zero =>
    split_ifs with h
    · simp [Nat.le_zero.1 h]
    · rfl
  | succ size ih =>
    rw [range_succ, foldl_append, foldl_cons, foldl_nil, Function.update_apply, ih, ih, ih]
    rcases lt_trichotomy i (size + 1) with h | rfl | h
    · rw [if_neg (by omega), if_pos (by omega), if_pos (by omega)]
    · rw [if_pos rfl, if_neg (by omega), if_pos le_rfl, if_pos le_rfl, Finset.sum_range_succ _ (size + 1), add_comm]
    · rw [if_neg (by omega), if_neg (by omega), if_neg (by omega)]

theorem sum_countP_counted (size x : Nat) (l : List Int) :
    ∑ j ∈ Finset.range (x + 1), (l.countP (counted size j) : Int) =
      l.countP fun d : Int => d ≠ -1 ∧ d + 1 ≤ size ∧ (d + 1).toNat ≤ x := by
  induction l with
  | nil => simp
  | cons d l ih =>
    simp only [countP_cons, Nat.cast_add, sum_add_distrib]
    congr 1
    have hcount : ∀ j, (((if counted size j d then 1 else 0 : Nat)) : Int) =
        if (d + 1).toNat = j then (if d ≠ -1 ∧ d + 1 ≤ size then 1 else 0) else 0 := by
      unfold counted
      split_ifs <;> simp_all
    rw [sum_congr rfl fun j _ => hcount j, sum_ite_eq]
    simp only [Finset.mem_range, Nat.lt_succ_iff, decide_eq_true_eq, ← ite_and]
    rw [Nat.cast_ite]
    apply if_congr (by tauto) <;> rfl

theorem get_lru_hit_cnt_eq {size x : Nat} (hx : x ≤ size) (trace : List ObjId) :
    _get_lru_hit_cnt size trace x = (dists {} 0 trace).countP fun d : Int => d ≠ -1 ∧ d + 1 ≤ size ∧ (d + 1).toNat ≤ x := by
  unfold _get_lru_hit_cnt
  rw [foldl_prefix_sum, if_pos hx, ← sum_countP_counted]
  apply sum_congr rfl
  intro j _
  rw [foldl_count_dist, zero_add]

theorem get_lru_hit_cnt_hits (h : FirstOnce trace) {size x : Nat} (hx : x ≤ size) :
    Lru.hits (Lru.LRU_init x false) trace = some (_get_lru_hit_cnt size trace x).toNat := by
  have hcode : dists {} 0 trace = (stack_dists trace).map fun d => (d.map Int.ofNat).getD (-1) := by
    rw [dists_eq, stack_dists, map_along]
    exact along_eq_iff.2 fun l1 x l2 htrace => profiled_eq_distance h htrace
  rw [Lru.hits_eq, get_lru_hit_cnt_eq hx, hcode, countP_map, Int.toNat_natCast]
  congr 1
  apply countP_congr
  intro d _
  cases d with
  | none => simp
  | some d =>
    simp only [any_some, decide_eq_true_eq, Function.comp_apply, map_some, getD_some, Int.ofNat_eq_natCast]
    omega

/-- The profiler agrees with the cache on the traces whose first object does not come again, as long
as the distances fit into an `int32_t`. -/
theorem profiler_eq_simulation (trace : List ObjId) :
    (∀ size x : Nat, x ≤ size → ∃ n : Nat, Lru.hits (Lru.LRU_init x false) trace = some n ∧ _get_lru_hit_cnt size trace x = n) ∧
        get_stack_dist trace = some (along distance [] trace) ↔
      (∀ x l, trace = x :: l → x ∉ l) ∧ ∀ d, some d ∈ stack_dists trace → d < 2 ^ 31 := by
  constructor
  · intro h
    exact (get_stack_dist_eq_iff trace).1 h.2
  · intro h
    refine ⟨?_, (get_stack_dist_eq_iff trace).2 h⟩
    intro size x hx
    refine ⟨_, get_lru_hit_cnt_hits h.1 hx, ?_⟩
    rw [get_lru_hit_cnt_eq hx, Int.toNat_natCast]

/-- One object, twice: a hit for a cache of one slot, and a first request for the profiler. -/
theorem profiler_loses_first :
    Lru.hits (Lru.LRU_init 1 false) [1, 1] = some 1 ∧ _get_lru_hit_cnt 1 [1, 1] 1 = 0 ∧
      get_stack_dist [1, 1] = some [-1, -1] ∧ along distance [] [1, 1] = [-1, 0] := by
  decide

end CacheSim.Profiler
