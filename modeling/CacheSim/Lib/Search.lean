import Mathlib.Order.Lattice

/-!
# Binary search (`std::lower_bound`)
-/

namespace CacheSim.Lib

variable {α : Type} [LinearOrder α]

def search (vec : List α) (value : α) (first len : Nat) : Nat :=
  if len = 0 then first
  else
    let half := len / 2
    let middle := first + half
    if (vec[middle]?).any (· < value) then search vec value (middle + 1) (len - half - 1)
    else search vec value first half
termination_by len

def lower_bound (vec : List α) (value : α) : Nat := search vec value 0 vec.length

variable {vec : List α} {value : α}

theorem search_le (vec : List α) (value : α) (first len : Nat) : search vec value first len ≤ first + len := by
  fun_induction search vec value first len with
  | case1 first => omega
  | case2 first len hne half middle _ ih => omega
  | case3 first len hne half middle _ ih => omega

/-- What is before `first` is less than the value, and what is from `first + len` on is not. -/
structure Narrowed (vec : List α) (value : α) (first len : Nat) : Prop where
  le_length : first + len ≤ vec.length
  less : ∀ i (h : i < vec.length), i < first → vec[i] < value
  not_less : ∀ i (h : i < vec.length), first + len ≤ i → value ≤ vec[i]

section

variable (hsorted : vec.Pairwise (· ≤ ·))
include hsorted

theorem search_spec {first len : Nat} (h : Narrowed vec value first len) :
    Narrowed vec value (search vec value first len) 0 := by
  have hle : ∀ i j (hij : i ≤ j) (hj : j < vec.length), vec[i] ≤ vec[j] := by
    intro i j hij hj
    rcases hij.lt_or_eq with hlt | rfl
    · exact List.pairwise_iff_getElem.1 hsorted i j (hlt.trans hj) hj hlt
    · exact le_rfl
  fun_induction search vec value first len with
  | case1 first => exact h
  | case2 first len hne half middle hless ih =>
    have hlen := h.le_length
    have hmid : middle < vec.length := by omega
    rw [List.getElem?_eq_getElem hmid, Option.any_some, decide_eq_true_iff] at hless
    apply ih
    refine ⟨by omega, ?_, ?_⟩
    · intro i hi hlt
      exact (hle i middle (by omega) hmid).trans_lt hless
    · intro i hi hge
      exact h.not_less i hi (by omega)
  | case3 first len hne half middle hless ih =>
    have hlen := h.le_length
    have hmid : middle < vec.length := by omega
    rw [List.getElem?_eq_getElem hmid, Option.any_some, decide_eq_true_iff, not_lt] at hless
    apply ih
    refine ⟨by omega, h.less, ?_⟩
    intro i hi hge
    exact hless.trans (hle middle i hge hi)

theorem lower_bound_spec (value : α) : Narrowed vec value (lower_bound vec value) 0 :=
  search_spec hsorted ⟨by omega, by omega, by omega⟩

theorem lower_bound_le_length (value : α) : lower_bound vec value ≤ vec.length :=
  (lower_bound_spec hsorted value).le_length

theorem lower_bound_le_iff {i : Nat} (hi : i < vec.length) : lower_bound vec value ≤ i ↔ value ≤ vec[i] := by
  have h := lower_bound_spec hsorted value
  constructor
  · exact h.not_less i hi
  · intro hge
    by_contra hlt
    exact absurd (h.less i hi (Nat.lt_of_not_le hlt)) (not_lt.2 hge)

end

end CacheSim.Lib
