import Mathlib.Data.List.Nodup

/-!
# Lists with a position for each element

An array that is drawn from at random, with a map from each element to its index.
-/

namespace CacheSim.Lib

open List Function

variable {κ : Type}

def Positions (pos : κ → Option Nat) (pool : List κ) : Prop := ∀ s i, pos s = some i ↔ pool[i]? = some s

variable {pos : κ → Option Nat} {pool : List κ}

section

variable (h : Positions pos pool)
include h

theorem Positions.mem_iff (s : κ) : s ∈ pool ↔ ∃ i, pos s = some i := by
  rw [mem_iff_getElem?]
  simp only [h s]

theorem Positions.lt {s : κ} {i : Nat} (hs : pos s = some i) : i < pool.length :=
  (List.getElem?_eq_some_iff.1 ((h s i).1 hs)).1

theorem Positions.nodup : pool.Nodup := by
  rw [nodup_iff_injective_getElem]
  intro i j hij
  have hi := (h _ _).2 (getElem?_eq_getElem i.2)
  have hj := (h _ _).2 (getElem?_eq_getElem j.2)
  have hval : pool[i.1] = pool[j.1] := hij
  rw [hval, hj] at hi
  exact Fin.ext (Option.some.inj hi).symm

end

variable [DecidableEq κ]

section

variable (h : Positions pos pool)
include h

theorem Positions.push {s : κ} (hs : pos s = none) :
    Positions (update pos s (some pool.length)) (pool ++ [s]) := by
  intro t i
  rcases eq_or_ne t s with rfl | hne
  · rw [update_self]
    constructor
    · rintro ⟨rfl⟩
      simp
    · intro hi
      rcases Nat.lt_or_ge i pool.length with hlt | hge
      · rw [getElem?_append_left hlt] at hi
        have := (h t i).2 hi
        rw [hs] at this
        cases this
      · have := (List.getElem?_eq_some_iff.1 hi).1
        rw [length_append, length_singleton] at this
        have : i = pool.length := by omega
        rw [this]
  · rw [update_of_ne hne, h]
    rcases Nat.lt_or_ge i pool.length with hlt | hge
    · rw [getElem?_append_left hlt]
    · rw [getElem?_append_right hge, getElem?_eq_none hge]
      refine ⟨by simp, fun hi => ?_⟩
      have := mem_of_getElem? hi
      rw [mem_singleton] at this
      exact absurd this hne

theorem Positions.swapRemove {s last : κ} {i : Nat} (hs : pos s = some i)
    (hl : pool.getLast? = some last) :
    Positions (update (update pos last (some i)) s none) ((pool.set i last).dropLast) := by
  have hget := (h s i).1 hs
  have hi := h.lt hs
  obtain ⟨init, hsplit⟩ : ∃ init, pool = init ++ [last] := by
    obtain ⟨init, hinit⟩ := getLast?_eq_some_iff.1 hl
    exact ⟨init, hinit⟩
  have hlen : pool.length = init.length + 1 := by simp [hsplit]
  have hlast : pool[init.length]? = some last := by simp [hsplit]
  have hplast : pos last = some init.length := (h _ _).2 hlast
  have hinit : ∀ j < init.length, pool[j]? = init[j]? := by
    intro j hj
    rw [hsplit, getElem?_append_left hj]
  have hset : (pool.set i last).dropLast = init.set i last := by
    rw [hsplit]
    rcases Nat.lt_or_ge i init.length with hlt | hge
    · rw [set_append_left _ _ hlt, dropLast_concat]
    · have : i = init.length := by omega
      subst this
      simp [set_eq_of_length_le]
  rw [hset]
  intro t j
  rcases eq_or_ne t s with rfl | hts
  · refine ⟨by simp, fun hj => ?_⟩
    exfalso
    rw [getElem?_set] at hj
    split_ifs at hj with hij hjl
    · -- `t` was the last element, and stands there only
      cases hj
      rw [hplast] at hs
      cases hs
      omega
    · have hjlt : j < init.length := (List.getElem?_eq_some_iff.1 hj).1
      have := (h t j).2 ((hinit j hjlt).trans hj)
      rw [hs] at this
      cases this
      exact hij rfl
  · rw [update_of_ne hts]
    rcases eq_or_ne t last with rfl | htl
    · rw [update_self, getElem?_set]
      have hne : i ≠ init.length := by
        rintro rfl
        rw [hlast] at hget
        cases hget
        exact hts rfl
      have hilt : i < init.length := by omega
      constructor
      · rintro ⟨rfl⟩
        simp [hilt]
      · intro hj
        split_ifs at hj with hij
        · exact congrArg some hij
        · have hjlt : j < init.length := (List.getElem?_eq_some_iff.1 hj).1
          have := (h t j).2 ((hinit j hjlt).trans hj)
          rw [hplast] at this
          cases this
          omega
    · rw [update_of_ne htl, h, getElem?_set]
      constructor
      · intro hj
        have hjl : j < pool.length := (List.getElem?_eq_some_iff.1 hj).1
        have hjne : j ≠ init.length := by
          rintro rfl
          rw [hlast] at hj
          cases hj
          exact htl rfl
        have hij : i ≠ j := by
          rintro rfl
          rw [hget] at hj
          cases hj
          exact hts rfl
        rw [if_neg hij, ← hinit j (by omega)]
        exact hj
      · intro hj
        split_ifs at hj with hij
        · cases hj
          exact absurd rfl htl
        · have hjlt : j < init.length := (List.getElem?_eq_some_iff.1 hj).1
          exact (hinit j hjlt).trans hj

theorem Positions.swapRemove_isSome {s last : κ} {i : Nat}
    (hl : pool.getLast? = some last) (t : κ) :
    (∃ j, update (update pos last (some i)) s none t = some j) ↔
      t ≠ s ∧ ∃ j, pos t = some j := by
  rcases eq_or_ne t s with rfl | hts
  · simp
  · rcases eq_or_ne t last with rfl | htl
    · have : ∃ j, pos t = some j := (h.mem_iff t).1 (mem_of_getLast? hl)
      simp [hts, this]
    · simp [hts, update_of_ne htl]

end

end CacheSim.Lib
