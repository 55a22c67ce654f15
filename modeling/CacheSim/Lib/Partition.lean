import Mathlib.Algebra.Order.BigOperators.Group.List
import Mathlib.Algebra.Order.Ring.Int
import Mathlib.Data.List.Nodup

/-!
# Records kept in lists

A table of records by key, and a family of lists of keys.
-/

namespace CacheSim.Lib

open List

variable {κ ι ρ : Type}

structure Part (κ ι ρ : Type) where
  table : ι → Option ρ
  list : κ → List ι

namespace Part

def WF (cls : ρ → κ) (P : Part κ ι ρ) : Prop :=
  ∀ k, (P.list k).Nodup ∧ ∀ i, i ∈ P.list k ↔ ∃ r, P.table i = some r ∧ cls r = k

def weight (w : ρ → Int) (P : Part κ ι ρ) (i : ι) : Int := ((P.table i).map w).getD 0

def total (w : ρ → Int) (P : Part κ ι ρ) (k : κ) : Int := ((P.list k).map (P.weight w)).sum

variable {cls : ρ → κ} {P P' : Part κ ι ρ} {i : ι} {x : Option ρ}

theorem WF.mem_of_table (h : P.WF cls) {r : ρ} (hr : P.table i = some r) : i ∈ P.list (cls r) :=
  ((h _).2 i).2 ⟨r, hr, rfl⟩

variable {k : κ}

theorem WF.table_of_mem (h : P.WF cls) (hi : i ∈ P.list k) :
    ∃ r, P.table i = some r ∧ cls r = k := ((h k).2 i).1 hi

theorem WF.not_mem (h : P.WF cls) (hi : P.table i = none) (k : κ) : i ∉ P.list k := by
  intro hm
  obtain ⟨r, hr, -⟩ := h.table_of_mem hm
  simp [hi] at hr

theorem WF.disjoint (h : P.WF cls) {k k' : κ} (hk : k ≠ k') : (P.list k).Disjoint (P.list k') := by
  intro i hi hi'
  obtain ⟨r, hr, hc⟩ := h.table_of_mem hi
  obtain ⟨r', hr', hc'⟩ := h.table_of_mem hi'
  rw [hr] at hr'
  cases hr'
  exact hk (hc.symm.trans hc')

theorem total_nonneg (w : ρ → Int) (hw : ∀ i r, P.table i = some r → 0 ≤ w r) (k : κ) : 0 ≤ P.total w k := by
  apply sum_nonneg
  intro z hz
  obtain ⟨j, -, rfl⟩ := mem_map.1 hz
  cases hr : P.table j with
  | none => simp [weight, hr]
  | some r => simpa [weight, hr] using hw j r hr

theorem weight_le_total (w : ρ → Int) (hw : ∀ i r, P.table i = some r → 0 ≤ w r)
    (hi : i ∈ P.list k) : P.weight w i ≤ P.total w k := by
  apply single_le_sum _ _ (mem_map_of_mem hi)
  intro z hz
  obtain ⟨j, -, rfl⟩ := mem_map.1 hz
  cases hr : P.table j with
  | none => simp [weight, hr]
  | some r => simpa [weight, hr] using hw j r hr

theorem total_le_length (w : ρ → Int) (hw : ∀ r, w r ≤ 1) (k : κ) : P.total w k ≤ (P.list k).length := by
  simp only [total]
  induction P.list k with
  | nil => simp
  | cons i l ih =>
    have hi : P.weight w i ≤ 1 := by
      cases hr : P.table i with
      | none => simp [weight, hr]
      | some r => simpa [weight, hr] using hw r
    simp only [map_cons, sum_cons, length_cons]
    omega

theorem total_nil (w : ρ → Int) (h : P.list k = []) : P.total w k = 0 := by
  simp [total, h]

theorem WF.total_one (h : P.WF cls) (k : κ) : P.total (fun _ => 1) k = (P.list k).length := by
  have hone : ∀ i ∈ P.list k, P.weight (fun _ => 1) i = 1 := by
    intro i hi
    obtain ⟨r, hr, -⟩ := h.table_of_mem hi
    simp [weight, hr]
  simp only [total, map_congr_left hone]
  simp

theorem list_ne_nil_of_total (w : ρ → Int) (h : P.total w k ≠ 0) : P.list k ≠ [] :=
  fun he => h (total_nil w he)

/-! ## Changing one record -/

variable [DecidableEq κ] [DecidableEq ι]

def share (cls : ρ → κ) (w : ρ → Int) (k : κ) : Option ρ → Int
  | some r => if cls r = k then w r else 0
  | none => 0

/-- `P'` is `P` with the record of `i` replaced by `x` and its key moved to the list that `x` names. -/
structure Sets (cls : ρ → κ) (P P' : Part κ ι ρ) (i : ι) (x : Option ρ) : Prop where
  table_eq : P'.table = Function.update P.table i x
  list_perm : ∀ k, (P'.list k).Perm
    ((if x.map cls = some k then [i] else []) ++ (P.list k).erase i)

theorem WF.sets (h : P.WF cls) (hs : Sets cls P P' i x) : P'.WF cls := by
  intro k
  have herase : i ∉ (P.list k).erase i := ((h k).1).not_mem_erase
  constructor
  · rw [(hs.list_perm k).nodup_iff]
    split_ifs with hx
    · simpa using ⟨herase, (h k).1.erase i⟩
    · simpa using (h k).1.erase i
  · intro j
    rw [(hs.list_perm k).mem_iff, hs.table_eq, mem_append, (h k).1.mem_erase_iff]
    by_cases hj : j = i
    · subst hj
      cases x <;> simp [Function.update_self]
    · rw [Function.update_of_ne hj, ← (h k).2 j]
      split_ifs <;> simp [hj]

theorem weight_sets (w : ρ → Int) (hs : Sets cls P P' i x) {j : ι} (hj : j ≠ i) : P'.weight w j = P.weight w j := by
  simp [weight, hs.table_eq, Function.update_of_ne hj]

theorem total_erase (w : ρ → Int) (h : P.WF cls) (k : κ) :
    (((P.list k).erase i).map (P.weight w)).sum = P.total w k - share cls w k (P.table i) := by
  by_cases hi : i ∈ P.list k
  · obtain ⟨r, hr, hc⟩ := h.table_of_mem hi
    have := sum_map_erase (P.weight w) hi
    have hw : P.weight w i = w r := by simp [weight, hr]
    simp only [total, share, hr, hc, if_true]
    omega
  · rw [erase_of_not_mem hi]
    cases hr : P.table i with
    | none => simp [total, share]
    | some r =>
      have : cls r ≠ k := by
        rintro rfl
        exact hi (h.mem_of_table hr)
      simp [total, share, this]

theorem total_sets (w : ρ → Int) (h : P.WF cls) (hs : Sets cls P P' i x) (k : κ) :
    P'.total w k = P.total w k - share cls w k (P.table i) + share cls w k x := by
  have herase : i ∉ (P.list k).erase i := ((h k).1).not_mem_erase
  have hrest : (((P.list k).erase i).map (P'.weight w)).sum =
      (((P.list k).erase i).map (P.weight w)).sum := by
    congr 1
    apply map_congr_left
    intro j hj
    exact weight_sets w hs (fun he => herase (he ▸ hj))
  have hx : ((if x.map cls = some k then [i] else []).map (P'.weight w)).sum = share cls w k x := by
    cases x with
    | none => simp [share]
    | some r =>
      by_cases hc : cls r = k <;>
        simp [share, hc, weight, hs.table_eq]
  have hsum := ((hs.list_perm k).map (P'.weight w)).sum_eq
  rw [map_append, sum_append, hx, hrest, total_erase w h k] at hsum
  simp only [total] at hsum ⊢
  omega

end Part

end CacheSim.Lib
