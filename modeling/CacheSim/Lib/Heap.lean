import Mathlib.Logic.Function.Basic
import Mathlib.Order.Lattice

/-!
# The top of a heap

A heap is the list of its entries, in no order that matters.
-/

namespace CacheSim.Lib

section

variable {α : Type} (before : α → α → Bool)

def top : List α → Option α
  | [] => none
  | a :: l =>
    match top l with
    | none => some a
    | some b => if before b a then some b else some a

variable {before} {a b : α} {l : List α}

theorem top_eq_none : top before l = none ↔ l = [] := by
  induction l with
  | nil => simp [top]
  | cons a l _ =>
    unfold top
    split
    · simp
    · split_ifs <;> simp

theorem top_mem (h : top before l = some a) : a ∈ l := by
  induction l generalizing a with
  | nil => simp [top] at h
  | cons b l ih =>
    unfold top at h
    split at h
    · simp_all
    · rename_i c hc
      split_ifs at h
      · simp [← Option.some.inj h, ih hc]
      · simp [← Option.some.inj h]

theorem top_cons (h : top before l = some b) (hlt : before b a = true) : top before (a :: l) = some b := by
  unfold top
  simp [h, hlt]

theorem not_before_top (hasymm : ∀ a b, before a b = true → before b a = false)
    (hsplit : ∀ a b c, before a c = true → before a b = true ∨ before b c = true)
    (h : top before l = some a) (hb : b ∈ l) : before b a = false := by
  have hirrefl : ∀ a, before a a = false := by
    intro a
    by_contra haa
    simp [hasymm a a (by simpa using haa)] at haa
  induction l generalizing a with
  | nil => simp at hb
  | cons d l ih =>
    unfold top at h
    split at h
    · rename_i hnone
      obtain rfl := top_eq_none.1 hnone
      simp_all
    · rename_i c hc
      rcases List.mem_cons.1 hb with rfl | hbl
      · split_ifs at h with hcd
        · cases h
          exact hasymm _ _ hcd
        · cases h
          exact hirrefl _
      · have hbc := ih hc hbl
        split_ifs at h with hcd
        · exact Option.some.inj h ▸ hbc
        · cases h
          by_contra hbd
          rcases hsplit b c d (by simpa using hbd) with h1 | h1
          · simp [hbc] at h1
          · exact hcd h1

end

/-!
## A heap in an array

The children of `i` are at `2 * i` and `2 * i + 1`.
-/

open Function

variable {β : Type} [LinearOrder β] {n m i c : Nat} {p p' : Nat → β} {v : β}

/-- In a heap of the positions from 1 to `n - 1`, nothing comes before its parent. -/
def Ordered (n : Nat) (p : Nat → β) : Prop := ∀ j, 2 ≤ j → j < n → p j ≤ p (j / 2)

/-- As in a heap, around the position `i`. -/
structure Hole (n : Nat) (p : Nat → β) (i : Nat) : Prop where
  others : ∀ j, 2 ≤ j → j < n → j ≠ i → j / 2 ≠ i → p j ≤ p (j / 2)
  across : 2 ≤ i → ∀ j < n, j / 2 = i → p j ≤ p (i / 2)

theorem Ordered.le_root {j : Nat} (h : Ordered n p) (hj : 1 ≤ j) (hjn : j < n) : p j ≤ p 1 := by
  induction j using Nat.strongRecOn with
  | _ j ih =>
    rcases Nat.lt_or_ge j 2 with hlt | hge
    · rw [show j = 1 by omega]
    · exact (h j hge hjn).trans (ih (j / 2) (by omega) (by omega) (by omega))

theorem Ordered.hole (h : Ordered n p) (hn : ∀ j < m, j ≠ i → j < n)
    (hp : ∀ j, 1 ≤ j → j < m → j ≠ i → p' j = p j) : Hole m p' i := by
  constructor
  · intro j hj hjm hne hne'
    rw [hp j (by omega) hjm hne, hp (j / 2) (by omega) (by omega) hne']
    exact h j hj (hn j hjm hne)
  · rintro hi j hjm rfl
    rw [hp j (by omega) hjm (by omega), hp (j / 2 / 2) (by omega) (by omega) (by omega)]
    have hjn := hn j hjm (by omega)
    exact (h j (by omega) hjn).trans (h (j / 2) hi (by omega))

theorem Hole.fill (h : Hole n p i) (hi : 2 ≤ i → v ≤ p (i / 2)) (hc : ∀ j, 2 ≤ j → j < n → j / 2 = i → p j ≤ v) :
    Ordered n (update p i v) := by
  intro j hj hjn
  have := h.others j hj hjn
  simp only [update_apply]
  grind

theorem Hole.up (h : Hole n p i) (hi : 2 ≤ i) : Hole n (update p i (p (i / 2))) (i / 2) := by
  constructor
  · intro j hj hjn hne hne'
    have := h.others j hj hjn
    have := h.across hi j hjn
    simp only [update_apply]
    grind
  · intro hi' j hjn heq
    have := h.others j (by omega) hjn
    have := h.others (i / 2) hi' (by omega)
    simp only [update_apply]
    grind

theorem Hole.down (h : Hole n p i) (hi : 1 ≤ i) (hc : c / 2 = i) (hcn : c < n)
    (hmax : ∀ j, 2 ≤ j → j < n → j / 2 = i → p j ≤ p c) : Hole n (update p i (p c)) c := by
  constructor
  · intro j hj hjn hne hne'
    have := h.others j hj hjn
    have := h.across
    have := hmax j hj hjn
    simp only [update_apply]
    grind
  · intro hc2 j hjn heq
    have := h.others j (by omega) hjn
    simp only [update_apply]
    grind

end CacheSim.Lib
