import Mathlib.Algebra.BigOperators.Group.Finset.Basic
import Mathlib.Algebra.Order.Ring.Int
import Mathlib.Data.List.TakeWhile

/-!
# The order of last use

A trace puts its elements in the order of their last occurrences, the last one first.
-/

namespace CacheSim.Lib

open List

variable {α : Type} [DecidableEq α]

def touch (l : List α) (x : α) : List α := x :: l.erase x

def recency (past : List α) : List α := past.foldl touch []

def since (past : List α) (x : α) : List α := past.reverse.takeWhile (· ≠ x)

def stack_dist (past : List α) (x : α) : Option Nat := if x ∈ past then some (since past x).toFinset.card else none

/-- The weight of the distinct elements from the last `x` on; `none` if there was no `x`. -/
def weighed_dist (w : α → Nat) (past : List α) (x : α) : Option Nat :=
  if x ∈ past then some (∑ y ∈ insert x (since past x).toFinset, w y) else none

def along {β : Type} (f : List α → α → β) : List α → List α → List β
  | _, [] => []
  | past, x :: l => f past x :: along f (past ++ [x]) l

def stack_dists (trace : List α) : List (Option Nat) := along stack_dist [] trace

variable {β : Type}

omit [DecidableEq α] in
theorem along_eq_iff {f g : List α → α → β} {past l : List α} :
    along f past l = along g past l ↔ ∀ l1 x l2, l = l1 ++ x :: l2 → f (past ++ l1) x = g (past ++ l1) x := by
  induction l generalizing past with
  | nil => simp [along]
  | cons y l ih =>
    rw [along, along, List.cons.injEq, ih]
    constructor
    · rintro ⟨hhead, htail⟩ l1 x l2 hl
      cases l1 with
      | nil =>
        cases hl
        simpa using hhead
      | cons z l1 =>
        cases hl
        simpa using htail l1 x l2 rfl
    · intro h
      refine ⟨by simpa using h [] y l rfl, ?_⟩
      intro l1 x l2 hl
      simpa using h (y :: l1) x l2 (by rw [hl]; rfl)

omit [DecidableEq α] in
theorem map_along {β γ : Type} (f : List α → α → β) (g : β → γ) (past l : List α) :
    (along f past l).map g = along (fun p x => g (f p x)) past l := by
  induction l generalizing past with
  | nil => rfl
  | cons x l ih => simp [along, ih]

omit [DecidableEq α] in
theorem along_concat (f : List α → α → β) (past l : List α) (x : α) :
    along f past (l ++ [x]) = along f past l ++ [f (past ++ l) x] := by
  induction l generalizing past with
  | nil => simp [along]
  | cons y l ih => simp [along, ih]

omit [DecidableEq α] in
theorem mem_along {f : List α → α → β} {past l : List α} {b : β} :
    b ∈ along f past l ↔ ∃ l1 x l2, l = l1 ++ x :: l2 ∧ f (past ++ l1) x = b := by
  induction l generalizing past with
  | nil => simp [along]
  | cons y l ih =>
    rw [along, mem_cons, ih]
    constructor
    · rintro (rfl | ⟨l1, x, l2, rfl, hb⟩)
      · exact ⟨[], y, l, rfl, by simp⟩
      · exact ⟨y :: l1, x, l2, rfl, by simpa using hb⟩
    · rintro ⟨l1, x, l2, hl, hb⟩
      cases l1 with
      | nil =>
        cases hl
        exact .inl (by simpa using hb.symm)
      | cons z l1 =>
        cases hl
        exact .inr ⟨l1, x, l2, rfl, by simpa using hb⟩

@[simp] theorem recency_concat (past : List α) (x : α) : recency (past ++ [x]) = x :: (recency past).erase x := by
  simp [recency, touch]

theorem since_concat (past : List α) (x y : α) : since (past ++ [y]) x = if y = x then [] else y :: since past x := by
  unfold since
  split_ifs with h
  · simp [h]
  · simp [h]

theorem nodup_recency (past : List α) : (recency past).Nodup := by
  induction past using List.reverseRecOn with
  | nil => exact nodup_nil
  | append_singleton past x ih =>
    rw [recency_concat]
    exact nodup_cons.2 ⟨ih.not_mem_erase, ih.erase x⟩

variable {past : List α} {x : α}

theorem mem_recency : x ∈ recency past ↔ x ∈ past := by
  induction past using List.reverseRecOn with
  | nil => simp [recency]
  | append_singleton past y ih =>
    rw [recency_concat, mem_cons, mem_append, mem_singleton, ← ih, (nodup_recency past).mem_erase_iff]
    tauto

theorem takeWhile_erase {x y : α} (h : y ≠ x) (l : List α) :
    (l.erase y).takeWhile (· ≠ x) = (l.takeWhile (· ≠ x)).erase y := by
  induction l with
  | nil => rfl
  | cons z l ih =>
    rcases eq_or_ne z y with rfl | hzy
    · simp [h]
    · rw [erase_cons_tail (by simpa using hzy)]
      rcases eq_or_ne z x with rfl | hzx
      · simp
      · rw [takeWhile_cons_of_pos (by simpa using hzx), takeWhile_cons_of_pos (by simpa using hzx),
          erase_cons_tail (by simpa using hzy), ih]

theorem mem_takeWhile_recency {x y : α} (hx : x ∈ past) : y ∈ (recency past).takeWhile (· ≠ x) ↔ y ∈ since past x := by
  induction past using List.reverseRecOn with
  | nil => simp at hx
  | append_singleton past z ih =>
    rw [recency_concat, since_concat]
    rcases eq_or_ne z x with rfl | hne
    · simp
    · have hx' : x ∈ past := by simpa [Ne.symm hne] using hx
      have hnodup : ((recency past).takeWhile (· ≠ x)).Nodup := (nodup_recency past).sublist (takeWhile_sublist _)
      rw [if_neg hne, takeWhile_cons_of_pos (by simpa using hne), takeWhile_erase hne, mem_cons, mem_cons,
        hnodup.mem_erase_iff, ih hx']
      tauto

theorem takeWhile_ne_append {l1 l2 : List α} (h : x ∉ l1) : (l1 ++ x :: l2).takeWhile (· ≠ x) = l1 := by
  rw [takeWhile_append_of_pos]
  · simp
  · intro y hy
    simp only [decide_eq_true_eq]
    rintro rfl
    exact h hy

theorem sum_takeWhile_recency (hx : x ∈ past) (w : α → Nat) :
    (((recency past).takeWhile (· ≠ x)).map w).sum = ∑ y ∈ (since past x).toFinset, w y := by
  have hnodup : ((recency past).takeWhile (· ≠ x)).Nodup := (nodup_recency past).sublist (takeWhile_sublist _)
  rw [← sum_toFinset w hnodup]
  apply Finset.sum_congr _ fun _ _ => rfl
  ext y
  rw [mem_toFinset, mem_toFinset, mem_takeWhile_recency hx]

theorem notMem_since (past : List α) (x : α) : x ∉ since past x := by
  intro hmem
  simpa using mem_takeWhile_imp hmem

theorem toFinset_recency (past : List α) : (recency past).toFinset = past.toFinset := by
  ext y
  rw [mem_toFinset, mem_toFinset, mem_recency]

theorem idxOf_eq_length_takeWhile {l : List α} (hx : x ∈ l) : l.idxOf x = (l.takeWhile (· ≠ x)).length := by
  induction l with
  | nil => simp at hx
  | cons y l ih =>
    rcases eq_or_ne y x with rfl | hne
    · simp
    · have hx' : x ∈ l := by simpa [Ne.symm hne] using hx
      rw [idxOf_cons_ne _ hne, takeWhile_cons_of_pos (by simpa using hne), length_cons, ih hx']

theorem idxOf_recency (hx : x ∈ past) : (recency past).idxOf x = (since past x).toFinset.card := by
  have hnodup : ((recency past).takeWhile (· ≠ x)).Nodup := (nodup_recency past).sublist (takeWhile_sublist _)
  rw [idxOf_eq_length_takeWhile (mem_recency.2 hx), ← toFinset_card_of_nodup hnodup]
  congr 1
  ext y
  rw [mem_toFinset, mem_toFinset, mem_takeWhile_recency hx]

theorem mem_take_recency {c : Nat} : x ∈ (recency past).take c ↔ x ∈ past ∧ (since past x).toFinset.card < c := by
  by_cases hx : x ∈ past
  · rw [mem_take_iff_idxOf_lt (mem_recency.2 hx), idxOf_recency hx]
    simp [hx]
  · have hnot : x ∉ (recency past).take c := fun hin => hx (mem_recency.1 (mem_of_mem_take hin))
    simp [hx, hnot]

theorem take_touch (l : List α) (x : α) (c : Nat) : (touch (l.take c) x).take c = (touch l x).take c := by
  unfold touch
  cases c with
  | zero => rfl
  | succ c =>
    rw [take_succ_cons, take_succ_cons]
    congr 1
    induction l generalizing c with
    | nil => simp
    | cons y l ih =>
      rcases eq_or_ne y x with rfl | hne
      · simp
      · rw [take_succ_cons, erase_cons_tail (by simpa using hne), erase_cons_tail (by simpa using hne)]
        cases c with
        | zero => rfl
        | succ c => rw [take_succ_cons, take_succ_cons, ih]

/-! ## The positions of the last occurrences -/

def last_idx (past : List α) (x : α) : Option Nat :=
  if x ∈ past then some (past.length - 1 - (since past x).length) else none

theorem length_since (hx : x ∈ past) : (since past x).length < past.length := by
  have hle := (takeWhile_sublist (fun y => decide (y ≠ x)) : List.Sublist _ past.reverse).length_le
  rw [length_reverse] at hle
  apply lt_of_le_of_ne hle
  intro heq
  have hall : past.reverse.takeWhile (· ≠ x) = past.reverse :=
    (takeWhile_sublist _).eq_of_length (by rw [length_reverse]; exact heq)
  have hmem : x ∈ past.reverse.takeWhile (· ≠ x) := by
    rw [hall]
    simpa using hx
  simpa using mem_takeWhile_imp hmem

theorem last_idx_concat (past : List α) (x y : α) :
    last_idx (past ++ [y]) x = if y = x then some past.length else last_idx past x := by
  unfold last_idx
  rw [since_concat]
  split_ifs with hin hyx hx hx <;> simp_all
  omega

variable {i : Nat}

theorem last_idx_lt (h : last_idx past x = some i) : i < past.length := by
  unfold last_idx at h
  split_ifs at h with hx
  have := length_since hx
  cases h
  omega

theorem last_idx_isSome : (last_idx past x).isSome ↔ x ∈ past := by
  unfold last_idx
  split_ifs with hx <;> simp [hx]

theorem last_idx_inj {x y : α} (hx : last_idx past x = some i) (hy : last_idx past y = some i) : x = y := by
  induction past using List.reverseRecOn with
  | nil => simp [last_idx] at hx
  | append_singleton past z ih =>
    rw [last_idx_concat] at hx hy
    split_ifs at hx hy with hzx hzy hzy
    · exact hzx.symm.trans hzy
    · cases hx
      exact absurd (last_idx_lt hy) (lt_irrefl _)
    · cases hy
      exact absurd (last_idx_lt hx) (lt_irrefl _)
    · exact ih hx hy

theorem last_idx_eq_zero : last_idx past x = some 0 ↔ ∃ l, past = x :: l ∧ x ∉ l := by
  induction past using List.reverseRecOn with
  | nil => simp [last_idx]
  | append_singleton past y ih =>
    rw [last_idx_concat]
    split_ifs with hyx
    · cases past <;> simp_all
    · rw [ih]
      constructor
      · rintro ⟨l, rfl, hx⟩
        exact ⟨l ++ [y], rfl, by simp [hx, Ne.symm hyx]⟩
      · rintro ⟨l, hl, hx⟩
        cases past with
        | nil => simp_all
        | cons z past =>
          cases hl
          exact ⟨past, rfl, by simp_all⟩

theorem last_idx_eq_some {j : Nat} : last_idx past x = some j ↔ past[j]? = some x ∧ x ∉ past.drop (j + 1) := by
  induction past using List.reverseRecOn with
  | nil => simp [last_idx]
  | append_singleton past y ih =>
    rw [last_idx_concat]
    rcases lt_trichotomy j past.length with hlt | rfl | hlt
    · rw [getElem?_append_left hlt, drop_append_of_le_length (by omega)]
      split_ifs with hyx
      · simp [hyx]
        omega
      · simp [ih, Ne.symm hyx]
    · have hold : last_idx past x ≠ some past.length := fun hj => lt_irrefl _ (last_idx_lt hj)
      split_ifs with hyx
      · simp [hyx]
      · simp [hold, hyx]
    · have hold : last_idx past x ≠ some j := fun hj => lt_asymm hlt (last_idx_lt hj)
      have hnone : (past ++ [y])[j]? = none := by simp; omega
      split_ifs
      · simp [hnone]
        omega
      · simp [hnone, hold]

theorem mem_since_iff {x y : α} (hx : last_idx past x = some i) :
    y ∈ since past x ↔ ∃ j, last_idx past y = some j ∧ i < j := by
  induction past using List.reverseRecOn with
  | nil => simp [last_idx] at hx
  | append_singleton past z ih =>
    rw [last_idx_concat] at hx
    rw [since_concat]
    split_ifs at hx ⊢ with hzx
    · cases hx
      constructor
      · simp
      · rintro ⟨j, hj, hlt⟩
        have := last_idx_lt hj
        rw [length_append, length_singleton] at this
        omega
    · rw [mem_cons, ih hx, last_idx_concat]
      have hi := last_idx_lt hx
      split_ifs with hzy
      · simp [hzy, hi]
      · simp [Ne.symm hzy]

theorem card_since (hx : last_idx past x = some i) (t : Finset Nat)
    (ht : ∀ j, i < j → (j ∈ t ↔ ∃ y, last_idx past y = some j)) :
    (t.filter fun j => i < j).card = (since past x).toFinset.card := by
  have himage : (t.filter fun j => i < j) = (since past x).toFinset.image fun y => (last_idx past y).getD 0 := by
    ext j
    rw [Finset.mem_filter, Finset.mem_image]
    constructor
    · rintro ⟨hj, hlt⟩
      obtain ⟨y, hy⟩ := (ht j hlt).1 hj
      exact ⟨y, mem_toFinset.2 ((mem_since_iff hx).2 ⟨j, hy, hlt⟩), by simp [hy]⟩
    · rintro ⟨y, hy, rfl⟩
      obtain ⟨j, hj, hlt⟩ := (mem_since_iff hx).1 (mem_toFinset.1 hy)
      rw [hj, Option.getD_some]
      exact ⟨(ht j hlt).2 ⟨y, hj⟩, hlt⟩
  rw [himage, Finset.card_image_of_injOn]
  intro y hy z hz heq
  obtain ⟨j, hj, -⟩ := (mem_since_iff hx).1 (mem_toFinset.1 hy)
  obtain ⟨k, hk, -⟩ := (mem_since_iff hx).1 (mem_toFinset.1 hz)
  simp only [hj, hk, Option.getD_some] at heq
  exact last_idx_inj hj (heq ▸ hk)

end CacheSim.Lib
