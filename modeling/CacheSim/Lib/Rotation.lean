import Mathlib.Data.List.Basic

/-!
# Queues whose head pays and goes to the back

Each member has some lives. The head gives one up and moves to the back, until it has none left.
-/

namespace CacheSim.Lib

open List

def fewest (lives : List Nat) : Nat := lives.min?.getD 0

/-- How often the head moves before a head without a life comes up: the queue goes round once for
each life that all members have, then up to the first member with the fewest. -/
def spins (lives : List Nat) : Nat := lives.length * fewest lives + lives.idxOf (fewest lives)

theorem fewest_eq {lives : List Nat} {m : Nat} (hm : m ∈ lives) (h : ∀ x ∈ lives, m ≤ x) : fewest lives = m := by
  unfold fewest
  rw [min?_eq_some_iff.2 ⟨hm, h⟩]
  rfl

theorem fewest_spec (x : Nat) (xs : List Nat) : fewest (x :: xs) ∈ x :: xs ∧ ∀ y ∈ x :: xs, fewest (x :: xs) ≤ y := by
  unfold fewest
  rcases hm : (x :: xs).min? with _ | m
  · simp at hm
  · exact min?_eq_some_iff.1 hm

theorem spins_of_zero (xs : List Nat) : spins (0 :: xs) = 0 := by
  have hmin : fewest (0 :: xs) = 0 := fewest_eq (by simp) (by simp)
  unfold spins
  simp [hmin]

theorem spins_rotate {x : Nat} (xs : List Nat) (hx : 0 < x) : spins (x :: xs) = spins (xs ++ [x - 1]) + 1 := by
  obtain ⟨hmem, hle⟩ := fewest_spec x xs
  set m := fewest (x :: xs) with hm
  have hmx : m ≤ x := hle x (by simp)
  unfold spins
  rw [← hm]
  rcases Nat.eq_or_lt_of_le hmx with heq | hlt
  · -- the head is the first with the fewest: with one life less it is the only one
    have hnot : x - 1 ∉ xs := by
      intro hin
      have := hle (x - 1) (by simp [hin])
      omega
    have hmin : fewest (xs ++ [x - 1]) = x - 1 := by
      apply fewest_eq (by simp)
      intro y hy
      rcases mem_append.1 hy with hy | hy
      · have := hle y (by simp [hy])
        omega
      · simp at hy
        omega
    rw [hmin, idxOf_append_of_notMem hnot, heq, idxOf_cons_self]
    obtain ⟨k, rfl⟩ : ∃ k, x = k + 1 := ⟨x - 1, by omega⟩
    simp only [length_cons, length_append, length_nil, Nat.zero_add, Nat.add_sub_cancel,
      idxOf_cons_self, Nat.mul_add]
    omega
  · have hin : m ∈ xs := by
      rcases mem_cons.1 hmem with h | h
      · omega
      · exact h
    have hmin : fewest (xs ++ [x - 1]) = m := by
      apply fewest_eq (by simp [hin])
      intro y hy
      rcases mem_append.1 hy with hy | hy
      · exact hle y (by simp [hy])
      · simp at hy
        omega
    rw [hmin, idxOf_append_of_mem hin, idxOf_cons_ne _ (by omega : x ≠ m), length_append]
    simp only [length_cons, length_nil, Nat.zero_add]
    omega

end CacheSim.Lib
