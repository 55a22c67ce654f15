import CacheSim.Lib.NextUse
import CacheSim.Profiler.Proofs

/-!
# The distances of the profiler

A time of 0 is lost in every mode.
-/

namespace CacheSim.Profiler

open Lib List Option

variable {past trace : List ObjId} {s : State} {x : ObjId}

theorem bmod_eq_iff {c d : Int} (h : c = d ∨ c = -1) (hd : -1 ≤ d) : c.bmod (2 ^ 32) = d ↔ c = d ∧ d < 2 ^ 31 := by
  constructor
  · intro hstored
    have hlt : c.bmod (2 ^ 32) < _ := Int.bmod_lt (by decide)
    refine ⟨?_, by norm_num; omega⟩
    rcases h with rfl | rfl
    · rfl
    · rw [← hstored]
      decide
  · rintro ⟨rfl, hlt⟩
    apply Int.bmod_eq_of_le <;> norm_num <;> omega

variable {code spec : List Int}

section

variable (h : List.Forall₂ (fun c d => c = d ∨ c = -1) code spec)
include h

theorem map_bmod_eq_iff (hspec : ∀ d ∈ spec, -1 ≤ d) :
    (code.map fun d => d.bmod (2 ^ 32)) = spec ↔ code = spec ∧ ∀ d ∈ spec, d < 2 ^ 31 := by
  induction h with
  | nil => simp
  | cons hcd _ ih =>
    simp only [forall_mem_cons] at hspec
    rw [map_cons, List.cons.injEq, List.cons.injEq, forall_mem_cons, bmod_eq_iff hcd hspec.1, ih hspec.2]
    tauto

theorem stored_eq_iff {stop : Bool}
    (hspec : ∀ d ∈ spec, -1 ≤ d) (hstop : (∀ d ∈ spec, d < 2 ^ 31) → stop = false) :
    (if stop then none else some (code.map fun d => d.bmod (2 ^ 32))) = some spec ↔ code = spec ∧ ∀ d ∈ spec, d < 2 ^ 31 := by
  rw [← map_bmod_eq_iff h hspec]
  constructor
  · intro hsome
    split_ifs at hsome
    exact some.inj hsome
  · intro heq
    rw [hstop ((map_bmod_eq_iff h hspec).1 heq).2, heq]
    rfl

theorem any_too_large (hsmall : ∀ d ∈ spec, d < 2 ^ 31) : (code.any fun d => d > 2 ^ 32 - 1) = false := by
  induction h with
  | nil => rfl
  | @cons c d _ _ hcd _ ih =>
    rw [forall_mem_cons] at hsmall
    have hc : ¬ c > 2 ^ 32 - 1 := by
      rcases hcd with rfl | rfl <;> omega
    rw [any_cons, ih hsmall.2, Bool.or_false]
    exact decide_eq_false hc

end

theorem forall₂_along {f g : List ObjId → ObjId → Int} (h : ∀ past x, f past x = g past x ∨ f past x = -1) (past trace : List ObjId) :
    List.Forall₂ (fun c d => c = d ∨ c = -1) (along f past trace) (along g past trace) := by
  induction trace generalizing past with
  | nil => exact .nil
  | cons x trace ih => exact .cons (h past x) (ih _)

/-! ## The last request and the next one -/

variable {i j : Nat}

theorem next_use_eq_some {l : List ObjId} : next_use l j = some i ↔ ∃ x, l[i]? = some x ∧ last_idx (l.take i) x = some j := by
  simp only [last_idx_eq_some]
  constructor
  · intro h
    obtain ⟨hlt, hi⟩ := next_use_bound h
    have hget := getElem?_next_use h
    obtain ⟨x, hx, h⟩ := bind_eq_some_iff.1 h
    obtain ⟨k, hk, rfl⟩ := map_eq_some_iff.1 h
    refine ⟨x, hget.trans hx, ?_, ?_⟩
    · rw [getElem?_take_of_lt hlt, hx]
    · rw [drop_take, Nat.add_sub_cancel_left]
      exact (first_use_eq_some_iff.1 hk).2
  · rintro ⟨x, hi, hj, hfresh⟩
    have hlt : j < i := by
      have := (List.getElem?_eq_some_iff.1 hj).1
      rw [length_take] at this
      omega
    obtain ⟨k, rfl⟩ : ∃ k, i = j + 1 + k := ⟨i - (j + 1), by omega⟩
    rw [getElem?_take_of_lt hlt] at hj
    rw [drop_take, Nat.add_sub_cancel_left] at hfresh
    rw [← getElem?_drop] at hi
    rw [next_use, hj, bind_some, first_use_eq_some_iff.2 ⟨hi, hfresh⟩]
    rfl

theorem next_use_concat (past : List ObjId) (x : ObjId) (j : Nat) :
    next_use (past ++ [x]) j = if last_idx past x = some j then some past.length else next_use past j := by
  split_ifs with h
  · rw [next_use_eq_some]
    exact ⟨x, by simp, by rw [take_left, h]⟩
  · ext i
    rw [next_use_eq_some, next_use_eq_some]
    rcases lt_trichotomy i past.length with hlt | rfl | hlt
    · rw [getElem?_append_left hlt, take_append_of_le_length hlt.le]
    · simp [h]
    · simp [hlt.le, hlt]

/-! ## Since the last access -/

def since_last (past : List ObjId) (x : ObjId) : Int := ((last_idx past x).map fun i : Nat => (past.length : Int) - i).getD (-1)

def profiled_last (past : List ObjId) (x : ObjId) : Int := if last_idx past x = some 0 then -1 else since_last past x

theorem since_last_again {i : Nat} (h : last_idx past x = some i) : since_last past x = past.length - i := by simp [since_last, h]

theorem neg_one_le_since_last (past : List ObjId) (x : ObjId) : -1 ≤ since_last past x := by
  cases h : last_idx past x with
  | none => simp [since_last, h]
  | some i =>
    have hlt := last_idx_lt h
    rw [since_last_again h]
    omega

theorem access_dists_last {t : Table ObjId Nat} (h : ∀ x, t.lookup x = last_idx past x) (trace : List ObjId) :
    access_dists .DIST_SINCE_LAST_ACCESS t past.length trace = along profiled_last past trace := by
  induction trace generalizing past t with
  | nil => rfl
  | cons x trace ih =>
    have hdist : (get_access_dist_add_req t x past.length .DIST_SINCE_LAST_ACCESS).2 = profiled_last past x := by
      simp only [get_access_dist_add_req, g_hash_table_lookup, h]
      rcases hx : last_idx past x with _ | _ | i <;> simp [profiled_last, since_last, hx, Option.filter]
    have hnext : ∀ y, (t.insert x past.length).lookup y = last_idx (past ++ [x]) y := by
      intro y
      rw [last_idx_concat]
      split_ifs with hxy
      · rw [hxy, AList.lookup_insert]
      · rw [AList.lookup_insert_ne (Ne.symm hxy), h]
    have htail := ih hnext
    rw [length_append, length_singleton] at htail
    rw [access_dists, along, ← hdist, ← htail]
    rfl

theorem firstOnce_iff : FirstOnce trace ↔ ∀ l1 x l2, trace = l1 ++ x :: l2 → last_idx l1 x ≠ some 0 := by
  constructor
  · intro h l1 x l2 htrace hzero
    obtain ⟨l, rfl, -⟩ := last_idx_eq_zero.1 hzero
    exact h x (l ++ x :: l2) htrace (by simp)
  · rintro h x l rfl hx
    obtain ⟨l1, l2, rfl, hnew⟩ := eq_append_cons_of_mem hx
    exact h (x :: l1) x l2 rfl (last_idx_eq_zero.2 ⟨l1, rfl, hnew⟩)

theorem profiled_last_iff : along profiled_last [] trace = along since_last [] trace ↔ FirstOnce trace := by
  rw [along_eq_iff, firstOnce_iff]
  apply forall_congr'
  intro l1
  apply forall₂_congr
  intro x l2
  apply imp_congr_right
  rw [nil_append, profiled_last]
  split_ifs with hzero
  · have hdist := since_last_again hzero
    simp only [hzero, ne_eq, not_true_eq_false, iff_false]
    omega
  · simp [hzero]

theorem get_access_dist_last (reqs : List ObjId) :
    get_access_dist .DIST_SINCE_LAST_ACCESS reqs = some (along since_last [] reqs) ↔
      FirstOnce reqs ∧ ∀ i j, next_use reqs i = some j → j < i + 2 ^ 31 := by
  have hwrong : List.Forall₂ (fun c d => c = d ∨ c = -1) (along profiled_last [] reqs) (along since_last [] reqs) := by
    apply forall₂_along
    intro past x
    unfold profiled_last
    split_ifs <;> simp
  have hspec : ∀ d ∈ along since_last [] reqs, -1 ≤ d := by
    intro d hd
    obtain ⟨l1, x, l2, -, rfl⟩ := mem_along.1 hd
    exact neg_one_le_since_last _ _
  have hfits : (∀ d ∈ along since_last [] reqs, d < 2 ^ 31) ↔ ∀ i j, next_use reqs i = some j → j < i + 2 ^ 31 := by
    simp only [mem_along, next_use_eq_some]
    constructor
    · rintro h i j ⟨x, hj, hi⟩
      obtain ⟨hlt, rfl⟩ := List.getElem?_eq_some_iff.1 hj
      have hdist := h (since_last (reqs.take j) reqs[j]) ⟨reqs.take j, reqs[j], reqs.drop (j + 1), by simp, rfl⟩
      rw [since_last_again hi, length_take] at hdist
      omega
    · rintro h d ⟨l1, x, l2, htrace, rfl⟩
      rw [nil_append]
      cases hi : last_idx l1 x with
      | none => simp [since_last, hi]
      | some i =>
        have hnext := h i l1.length ⟨x, by simp [htrace], by simp [htrace, hi]⟩
        rw [since_last_again hi]
        omega
  have hempty : ∀ x, (∅ : Table ObjId Nat).lookup x = last_idx [] x := by simp [last_idx]
  have hcode := access_dists_last hempty reqs
  rw [length_nil] at hcode
  rw [get_access_dist, hcode, stored_eq_iff hwrong hspec (any_too_large hwrong), profiled_last_iff, hfits]

/-! ## Since the first access -/

def since_first (past : List ObjId) (x : ObjId) : Int := ((first_use past x).map fun i : Nat => (past.length : Int) - i).getD (-1)

theorem neg_one_le_since_first (past : List ObjId) (x : ObjId) : -1 ≤ since_first past x := by
  unfold since_first
  cases h : first_use past x with
  | none => simp
  | some i =>
    have hlt := (List.getElem?_eq_some_iff.1 (first_use_eq_some h)).1
    simp only [map_some, getD_some]
    omega

theorem access_dists_first (curr_ts : Nat) (past trace : List ObjId) :
    access_dists .DIST_SINCE_FIRST_ACCESS ∅ curr_ts trace = along (fun _ _ => -1) past trace := by
  induction trace generalizing curr_ts past with
  | nil => rfl
  | cons x trace ih => exact congrArg _ (ih (curr_ts + 1) (past ++ [x]))

theorem since_first_eq_neg_one_iff : since_first past x = -1 ↔ x ∉ past := by
  rw [← first_use_eq_none]
  unfold since_first
  cases h : first_use past x with
  | none => simp
  | some i =>
    have hlt := (List.getElem?_eq_some_iff.1 (first_use_eq_some h)).1
    simp only [map_some, getD_some, reduceCtorEq, iff_false]
    omega

theorem nodup_iff_fresh : trace.Nodup ↔ ∀ l1 x l2, trace = l1 ++ x :: l2 → x ∉ l1 := by
  constructor
  · rintro h l1 x l2 rfl hx
    exact disjoint_of_nodup_append h hx (mem_cons_self ..)
  · intro h
    induction trace using List.reverseRecOn with
    | nil => exact .nil
    | append_singleton past x ih =>
      rw [← concat_eq_append, nodup_concat]
      refine ⟨h past x [] rfl, ih fun l1 y l2 hpast => h l1 y (l2 ++ [x]) (by simp [hpast])⟩

theorem get_access_dist_first (trace : List ObjId) :
    get_access_dist .DIST_SINCE_FIRST_ACCESS trace = some (along since_first [] trace) ↔ trace.Nodup := by
  have hwrong : List.Forall₂ (fun c d => c = d ∨ c = -1) (along (fun _ _ => -1) [] trace) (along since_first [] trace) :=
    forall₂_along (by simp) _ _
  have hspec : ∀ d ∈ along since_first [] trace, -1 ≤ d := by
    intro d hd
    obtain ⟨l1, x, l2, -, rfl⟩ := mem_along.1 hd
    exact neg_one_le_since_first _ _
  have hnodup : along (fun _ _ => -1) [] trace = along since_first [] trace ↔ trace.Nodup := by
    rw [along_eq_iff]
    simp only [eq_comm (a := (-1 : Int)), since_first_eq_neg_one_iff]
    exact nodup_iff_fresh.symm
  rw [get_access_dist, access_dists_first 0 [], stored_eq_iff hwrong hspec (any_too_large hwrong), hnodup, and_iff_left_iff_imp]
  intro hn
  rw [← hnodup.2 hn]
  simp only [mem_along]
  rintro d ⟨-, -, -, -, rfl⟩
  decide

/-! ## The distance of the next request -/

def future_dist (reqs : List ObjId) (j : Nat) : Int :=
  ((next_use reqs j).bind fun i => reqs[i]?.map fun x => distance (reqs.take i) x).getD (-1)

theorem future_dist_concat (past : List ObjId) (x : ObjId) (j : Nat) :
    future_dist (past ++ [x]) j = if last_idx past x = some j then distance past x else future_dist past j := by
  unfold future_dist
  rw [next_use_concat]
  split_ifs with h
  · simp
  · rcases hi : next_use past j with _ | i
    · rfl
    · have hlt := (next_use_bound hi).2
      simp [getElem?_append_left hlt, take_append_of_le_length hlt.le]

def stored_futures (n : Nat) (past : List ObjId) : List Int :=
  (List.range n).map fun j => (if j = 0 then -1 else future_dist past j).bmod (2 ^ 32)

theorem set_map_range (f : Nat → Int) (n i : Nat) (d : Int) :
    ((List.range n).map f).set i d = (List.range n).map (Function.update f i d) := by
  apply ext_getElem (by simp)
  simp [getElem_set, Function.update_apply, eq_comm]

theorem stored_futures_concat (n : Nat) (past : List ObjId) (x : ObjId) :
    stored_futures n (past ++ [x]) =
      match (last_idx past x).filter (· ≠ 0) with
      | none => stored_futures n past
      | some i => (stored_futures n past).set i ((distance past x).bmod (2 ^ 32)) := by
  unfold stored_futures
  simp only [future_dist_concat]
  rcases hx : last_idx past x with _ | _ | i
  · rfl
  · apply map_congr_left
    intro j _
    split_ifs with hj hzero
    · rfl
    · exact absurd (some.inj hzero).symm hj
    · rfl
  · simp only [Option.filter, Nat.add_eq_zero_iff, one_ne_zero, and_false, not_false_eq_true, ne_eq, decide_true, if_true]
    rw [set_map_range]
    apply map_congr_left
    intro j _
    simp only [Function.update_apply, some.injEq, eq_comm]
    split_ifs with hj hzero
    · omega
    · rfl
    · rfl
    · rfl

theorem Inv.future_dists (h : Inv past s) (n : Nat) (trace : List ObjId) :
    future_dists s past.length trace (stored_futures n past) = stored_futures n (past ++ trace) := by
  induction trace generalizing past s with
  | nil => rw [Profiler.future_dists, append_nil]
  | cons x trace ih =>
    obtain ⟨s', hstep, hinv⟩ := h.add_req x
    have harray : (if last_access_ts s x ≠ -1 then (stored_futures n past).set (last_access_ts s x).toNat
      ((profiled past x).bmod (2 ^ 32))
        else stored_futures n past) = stored_futures n (past ++ [x]) := by
      rw [stored_futures_concat, last_access_ts, h.lookup_time]
      rcases hx : last_idx past x with _ | _ | i
      · rfl
      · rfl
      · simp [Option.filter, profiled, hx]
        omega
    have htail := ih hinv
    rw [length_append, length_singleton, append_assoc, singleton_append] at htail
    rw [Profiler.future_dists, hstep, ← htail, ← harray]

theorem neg_one_le_future_dist (reqs : List ObjId) (j : Nat) : -1 ≤ future_dist reqs j := by
  unfold future_dist
  rcases next_use reqs j with _ | i
  · simp
  · rcases h : reqs[i]? with _ | x
    · simp [h]
    · simpa [h] using neg_one_le_distance (reqs.take i) x

theorem future_dist_again {reqs : List ObjId} {x : ObjId} (hx : reqs[i]? = some x) (hj : last_idx (reqs.take i) x = some j) :
    future_dist reqs j = distance (reqs.take i) x := by
  have hnext : next_use reqs j = some i := next_use_eq_some.2 ⟨x, hx, hj⟩
  simp [future_dist, hnext, hx]

theorem distance_eq_iff {d : Nat} : distance past x = d ↔ stack_dist past x = some d := by
  unfold distance
  cases stack_dist past x <;> simp

theorem some_mem_stack_dists {d : Nat} : some d ∈ stack_dists trace ↔ ∃ j, future_dist trace j = d := by
  rw [stack_dists, mem_along]
  constructor
  · rintro ⟨l1, x, l2, rfl, hd⟩
    rw [nil_append] at hd
    have hx : x ∈ l1 := by
      by_contra hx
      simp [stack_dist, hx] at hd
    obtain ⟨j, hj⟩ := isSome_iff_exists.1 (last_idx_isSome.2 hx)
    refine ⟨j, ?_⟩
    rw [future_dist_again (i := l1.length) (x := x) (by simp) (by simpa using hj), take_left, distance_eq_iff, hd]
  · rintro ⟨j, hj⟩
    rcases hi : next_use trace j with _ | i
    · simp [future_dist, hi] at hj
    · obtain ⟨x, hx, hlast⟩ := next_use_eq_some.1 hi
      rw [future_dist_again hx hlast] at hj
      obtain ⟨hlt, rfl⟩ := List.getElem?_eq_some_iff.1 hx
      exact ⟨trace.take i, _, trace.drop (i + 1), by simp, distance_eq_iff.1 hj⟩

theorem future_dist_zero_iff : future_dist trace 0 = -1 ↔ FirstOnce trace := by
  rw [firstOnce_iff]
  constructor
  · rintro h l1 x l2 rfl hzero
    rw [future_dist_again (i := l1.length) (x := x) (by simp) (by simpa using hzero), take_left, distance_again hzero] at h
    omega
  · intro h
    have hnone : next_use trace 0 = none := by
      by_contra hsome
      obtain ⟨i, hi⟩ := ne_none_iff_exists'.1 hsome
      obtain ⟨x, hx, hlast⟩ := next_use_eq_some.1 hi
      obtain ⟨hlt, rfl⟩ := List.getElem?_eq_some_iff.1 hx
      exact h (trace.take i) _ (trace.drop (i + 1)) (by simp) hlast
    simp [future_dist, hnone]

theorem distances_fit (h : ∀ d, some d ∈ stack_dists trace → d < 2 ^ 31) : ∀ d ∈ along distance [] trace, d < 2 ^ 31 := by
  intro d hd
  obtain ⟨l1, x, l2, htrace, rfl⟩ := mem_along.1 hd
  rcases hk : stack_dist ([] ++ l1) x with _ | k
  · rw [distance, hk]
    decide
  · have hlt := h k (mem_along.2 ⟨l1, x, l2, htrace, hk⟩)
    rw [distance_eq_iff.2 hk]
    omega

theorem get_future_stack_dist_eq_iff (trace : List ObjId) :
    get_future_stack_dist trace = some ((List.range trace.length).map (future_dist trace)) ↔
      FirstOnce trace ∧ ∀ d, some d ∈ stack_dists trace → d < 2 ^ 31 := by
  have harray : future_dists {} 0 trace (List.replicate trace.length (-1)) =
      ((List.range trace.length).map fun j => if j = 0 then -1 else future_dist trace j).map fun d => d.bmod (2 ^ 32) := by
    have hrun := init_inv.future_dists trace.length trace
    have hstart : stored_futures trace.length [] = List.replicate trace.length (-1) := by
      simp only [stored_futures, future_dist, next_use, getElem?_nil, bind_none, getD_none, ite_self]
      rw [map_const', length_range]
      rfl
    rw [hstart, length_nil] at hrun
    rw [hrun, List.map_map]
    rfl
  have hwrong : List.Forall₂ (fun c d => c = d ∨ c = -1)
      ((List.range trace.length).map fun j => if j = 0 then -1 else future_dist trace j)
      ((List.range trace.length).map (future_dist trace)) := by
    rw [forall₂_map_left_iff, forall₂_map_right_iff, forall₂_same]
    intro j _
    split_ifs <;> simp
  have hspec : ∀ d ∈ (List.range trace.length).map (future_dist trace), -1 ≤ d := by
    simp only [List.forall_mem_map]
    exact fun j _ => neg_one_le_future_dist trace j
  have hfits : (∀ d ∈ (List.range trace.length).map (future_dist trace), d < 2 ^ 31) ↔
    ∀ d, some d ∈ stack_dists trace → d < 2 ^ 31 := by
    simp only [List.forall_mem_map, mem_range, some_mem_stack_dists]
    constructor
    · rintro h d ⟨j, hj⟩
      rcases hi : next_use trace j with _ | i
      · simp [future_dist, hi] at hj
      · have hbound := next_use_bound hi
        have hlt := h j (by omega)
        omega
    · intro h j _
      by_contra hlarge
      have hlt := h (future_dist trace j).toNat ⟨j, by omega⟩
      omega
  have hcode : ((List.range trace.length).map fun j => if j = 0 then -1 else future_dist trace j) =
      (List.range trace.length).map (future_dist trace) ↔ FirstOnce trace := by
    rw [← future_dist_zero_iff, map_inj_left]
    constructor
    · intro h
      rcases Nat.eq_zero_or_pos trace.length with hnil | hpos
      · rw [length_eq_zero_iff.1 hnil]
        rfl
      · exact (h 0 (mem_range.2 hpos)).symm
    · intro h j _
      split_ifs with hj
      · rw [hj, h]
      · rfl
  rw [get_future_stack_dist, harray, stored_eq_iff hwrong hspec, hcode, hfits]
  intro hsmall
  rw [dists_eq]
  apply any_too_large _ (distances_fit (hfits.1 hsmall))
  apply forall₂_along
  intro past x
  unfold profiled
  split_ifs <;> simp

/-- The second request of the first object counts as a first one, and since the first access nothing is
ever found. -/
theorem access_distances (trace : List ObjId) :
    (get_access_dist .DIST_SINCE_LAST_ACCESS trace = some (along since_last [] trace) ↔
      (∀ x l, trace = x :: l → x ∉ l) ∧ ∀ i j, next_use trace i = some j → j < i + 2 ^ 31) ∧
    (get_access_dist .DIST_SINCE_FIRST_ACCESS trace = some (along since_first [] trace) ↔ trace.Nodup) ∧
    (get_future_stack_dist trace = some ((List.range trace.length).map (future_dist trace)) ↔
      (∀ x l, trace = x :: l → x ∉ l) ∧ ∀ d, some d ∈ stack_dists trace → d < 2 ^ 31) :=
  ⟨get_access_dist_last trace, get_access_dist_first trace, get_future_stack_dist_eq_iff trace⟩

/-- One object, twice, and then another one, twice. -/
theorem access_distances_lost :
    get_access_dist .DIST_SINCE_LAST_ACCESS [1, 1, 2, 2] = some [-1, -1, -1, 1] ∧ along since_last [] [1, 1, 2, 2] = [-1, 1, -1, 1] ∧
    get_access_dist .DIST_SINCE_FIRST_ACCESS [1, 1, 2, 2] = some [-1, -1, -1, -1] ∧
    along since_first [] [1, 1, 2, 2] = [-1, 1, -1, 1] ∧
    get_future_stack_dist [1, 1, 2, 2] = some [-1, -1, 0, -1] ∧ (List.range 4).map (future_dist [1, 1, 2, 2]) = [0, -1, 0, -1] := by
  decide

end CacheSim.Profiler
