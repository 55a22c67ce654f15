import Mathlib.Data.Finset.Card

/-!
# The smallest elements of a set

Elements come one at a time, and a set keeps the smallest of them.
-/

namespace CacheSim.Lib

open Finset

variable {α β : Type} [DecidableEq α] [LinearOrder β]

/-- `S` are the `n` elements of `A` with the smallest values, or all if there are no more. -/
structure Smallest (n : Nat) (f : α → β) (A S : Finset α) : Prop where
  sub : S ⊆ A
  card : S.card = min n A.card
  below : ∀ a ∈ S, ∀ b ∈ A, b ∉ S → f a < f b

variable {n : Nat} {f : α → β} {A S T : Finset α} {x m : α}

omit [DecidableEq α] in
theorem smallest_empty (n : Nat) (f : α → β) : Smallest n f ∅ ∅ := ⟨Finset.Subset.refl _, by simp, by simp⟩

omit [DecidableEq α] in
theorem Smallest.eq_of_room (h : Smallest n f A S) (hroom : S.card < n) : S = A := by
  have hcard := h.card
  exact eq_of_subset_of_card_le h.sub (by omega)

theorem Smallest.insert_room (h : Smallest n f A S) (hroom : S.card < n) (hx : x ∉ S) : Smallest n f (insert x A) (insert x S) := by
  obtain rfl := h.eq_of_room hroom
  refine ⟨Finset.Subset.refl _, ?_, ?_⟩
  · rw [card_insert_of_notMem hx]
    omega
  · intro _ _ b hb hnot
    exact absurd hb hnot

theorem Smallest.insert_above (h : Smallest n f A S) (hfull : S.card = n) (hx : ∀ a ∈ S, f a < f x) : Smallest n f (insert x A) S := by
  refine ⟨h.sub.trans (subset_insert x A), ?_, ?_⟩
  · have hcard := h.card
    have hle := card_le_card (subset_insert x A)
    omega
  · intro a ha b hb hnot
    rcases mem_insert.1 hb with rfl | hb
    · exact hx a ha
    · exact h.below a ha b hb hnot

theorem Smallest.replace (h : Smallest n f A S) (hfull : S.card = n) (hx : x ∉ A) (hm : m ∈ S) (hmax : ∀ a ∈ S, f a ≤ f m)
    (hlt : f x < f m) (hinj : ∀ a ∈ S, f a = f m → a = m) : Smallest n f (insert x A) (insert x (S.erase m)) := by
  have hxS : x ∉ S := fun hmem => hx (h.sub hmem)
  refine ⟨insert_subset_insert x ((erase_subset m S).trans h.sub), ?_, ?_⟩
  · have hcard := h.card
    rw [card_insert_of_notMem (fun hmem => hxS (mem_of_mem_erase hmem)), card_erase_of_mem hm,
      card_insert_of_notMem hx]
    have hpos := card_pos.2 ⟨m, hm⟩
    omega
  · intro a ha b hb hnot
    rw [mem_insert, not_or] at hnot
    have hbA := (mem_insert.1 hb).resolve_left hnot.1
    -- what is left out is the greatest one, or above it
    have hb' : f m ≤ f b := by
      by_cases hbS : b ∈ S
      · have hbm : b = m := by
          by_contra hne
          exact hnot.2 (mem_erase.2 ⟨hne, hbS⟩)
        rw [hbm]
      · exact (h.below m hm b hbA hbS).le
    rcases mem_insert.1 ha with rfl | ha
    · exact hlt.trans_le hb'
    · obtain ⟨hne, haS⟩ := mem_erase.1 ha
      exact ((hmax a haS).lt_of_ne fun heq => hne (hinj a haS heq)).trans_le hb'

theorem Smallest.unique (h : Smallest n f A S) (h' : Smallest n f A T) : S = T := by
  apply eq_of_subset_of_card_le _ (h'.card.trans h.card.symm).le
  intro a ha
  by_contra hnot
  -- then something of `T` is not in `S`, and each of the two is below the other
  have hcard : (T \ S).Nonempty := by
    rw [sdiff_nonempty]
    intro hsub
    exact hnot ((eq_of_subset_of_card_le hsub (h.card.trans h'.card.symm).le).symm ▸ ha)
  obtain ⟨b, hb⟩ := hcard
  obtain ⟨hbT, hbS⟩ := mem_sdiff.1 hb
  exact lt_asymm (h.below a ha b (h'.sub hbT) hbS) (h'.below b hbT a (h.sub ha) hnot)

end CacheSim.Lib
