import Mathlib.Data.List.TakeWhile
import Mathlib.Data.List.Basic

/-!
# A hand that sweeps over items

The hand goes round and takes an item at a time. It passes over the pinned ones and over those that
were read, which it spares once; it gives up when it has passed more pinned items than there are
items.
-/

namespace CacheSim.Lib

open List

inductive Item where
  | pinned | unread | read
deriving DecidableEq

namespace Item

def wear : Item → Item
  | pinned => pinned
  | unread | read => unread

/-- The items that the hand can take without giving up; they are listed from the hand on. -/
def Affords (items : List Item) : Prop :=
  unread ∈ items ∨ items.count pinned + (items.takeWhile (· = pinned)).length ≤ items.length

def sweep (items : List Item) : List Item :=
  if unread ∈ items then (items.dropWhile (· ≠ unread)).tail ++ (items.takeWhile (· ≠ unread)).map wear
  else ((items.dropWhile (· = pinned)).tail ++ items.takeWhile (· = pinned)).map wear

def Lasts : Nat → List Item → Prop
  | 0, _ => True
  | n + 1, items => Affords items ∧ Lasts n (sweep items)

/-- There are `n` unread items; or one that was read is met before one that was not; or no more
pinned items are met between the last that was not read and the first that was than there were read. -/
def Fits (n : Nat) (items : List Item) : Prop :=
  n ≤ items.count unread ∨ [read, unread].Sublist items ∨
    ((items.takeWhile (· ≠ read)).reverse.takeWhile (· = pinned)).length ≤ items.count read

/-! ## The two rounds -/

variable {items l r : List Item}

theorem length_eq (items : List Item) : items.length = items.count pinned + items.count unread + items.count read := by
  induction items with
  | nil => rfl
  | cons a items ih =>
    cases a
    all_goals
      simp
      omega

theorem sweep_unread (h : unread ∉ l) : sweep (l ++ unread :: r) = r ++ l.map wear := by
  have hpass : ∀ a ∈ l, decide (a ≠ unread) = true := by
    intro a ha
    rw [decide_eq_true_eq]
    rintro rfl
    exact h ha
  unfold sweep
  rw [if_pos (by simp), dropWhile_append_of_pos hpass, takeWhile_append_of_pos hpass]
  simp

theorem sweep_read (h : ∀ a ∈ l, a = pinned) (hr : unread ∉ r) : sweep (l ++ read :: r) = (r ++ l).map wear ∧
    (Affords (l ++ read :: r) ↔ l.length ≤ (l ++ read :: r).count read) := by
  have hpass : ∀ a ∈ l, decide (a = pinned) = true := fun a ha => decide_eq_true (h a ha)
  have hun : unread ∉ l ++ read :: r := by
    intro hin
    rcases mem_append.1 hin with hin | hin
    · cases h _ hin
    · simp [hr] at hin
  constructor
  · unfold sweep
    rw [if_neg hun, dropWhile_append_of_pos hpass, takeWhile_append_of_pos hpass]
    simp
  · have hlen := length_eq (l ++ read :: r)
    rw [count_eq_zero.2 hun] at hlen
    unfold Affords
    rw [takeWhile_append_of_pos hpass, takeWhile_cons_of_neg (by simp), append_nil]
    constructor
    · rintro (hin | hle)
      · exact absurd hin hun
      · omega
    · exact fun hle => .inr (by omega)

theorem eq_pinned (hun : unread ∉ l) (hread : read ∉ l) : ∀ a ∈ l, a = pinned := by
  intro a ha
  cases a with
  | pinned => rfl
  | unread => exact absurd ha hun
  | read => exact absurd ha hread

theorem count_unread_wear (h : unread ∉ items) : (items.map wear).count unread = items.count read := by
  induction items with
  | nil => rfl
  | cons a items ih =>
    rw [mem_cons, not_or] at h
    cases a with
    | pinned => simpa [wear] using ih h.2
    | unread => exact absurd rfl h.1
    | read => simpa [wear] using ih h.2

theorem count_read_wear (items : List Item) : (items.map wear).count read = 0 := by
  rw [count_eq_zero]
  intro hin
  obtain ⟨a, -, ha⟩ := mem_map.1 hin
  cases a <;> cases ha

theorem wear_pinned (h : ∀ a ∈ l, a = pinned) : l.map wear = l := by
  rw [map_congr_left (g := id) fun a ha => by rw [h a ha]; rfl, map_id]

theorem pair_sublist_iff {a b : Item} : [a, b].Sublist items ↔ ∃ l r, items = l ++ a :: r ∧ b ∈ r := by
  rw [cons_sublist_iff]
  constructor
  · rintro ⟨l, r, rfl, ha, hb⟩
    obtain ⟨l1, l2, rfl⟩ := append_of_mem ha
    exact ⟨l1, l2 ++ r, by simp, mem_append_right _ (singleton_sublist.1 hb)⟩
  · rintro ⟨l, r, rfl, hb⟩
    exact ⟨l ++ [a], r, by simp, by simp, singleton_sublist.2 hb⟩

theorem pair_of_first {a b : Item} (h : a ∉ l) : [a, b].Sublist (l ++ a :: r) ↔ b ∈ r := by
  rw [sublist_append_iff]
  constructor
  · rintro ⟨l1, l2, heq, hl1, hl2⟩
    cases l1 with
    | nil =>
      subst heq
      exact singleton_sublist.1 (cons_sublist_cons.1 hl2)
    | cons x l1 =>
      obtain ⟨rfl, -⟩ := List.cons.inj heq
      exact absurd (hl1.mem (by simp)) h
  · intro hb
    exact ⟨[], [a, b], rfl, nil_sublist l, cons_sublist_cons.2 (singleton_sublist.2 hb)⟩

theorem takeWhile_past (l m : List Item) :
    (l ++ unread :: m).reverse.takeWhile (· = pinned) = m.reverse.takeWhile (· = pinned) := by
  rw [reverse_append, reverse_cons, append_assoc, takeWhile_append]
  split_ifs with hall
  · have : m.reverse.takeWhile (· = pinned) = m.reverse := takeWhile_prefix _ |>.eq_of_length hall
    simp [this]
  · rfl

theorem fits_of_unread (h : unread ∉ l) {n : Nat}
    (hn : n + 1 ≤ (l ++ unread :: r).count unread + (l ++ unread :: r).count read) :
    Fits (n + 1) (l ++ unread :: r) ↔ Fits n (r ++ l.map wear) := by
  have hcount := count_unread_wear h
  have hl := count_eq_zero.2 h
  simp only [count_append, count_cons_self, count_cons_of_ne (show unread ≠ read by decide)] at hn
  unfold Fits
  simp only [count_append, count_cons_self, count_cons_of_ne (show unread ≠ read by decide)]
  by_cases hread : read ∈ l
  · -- the hand wears it, so it is met before it was read again
    obtain ⟨l1, l2, rfl⟩ := append_of_mem hread
    refine iff_of_true (.inr (.inl (pair_sublist_iff.2 ⟨l1, l2 ++ unread :: r, by simp, by simp⟩))) ?_
    by_cases hr : read ∈ r
    · obtain ⟨r1, r2, rfl⟩ := append_of_mem hr
      exact .inr (.inl (pair_sublist_iff.2 ⟨r1, r2 ++ (l1 ++ read :: l2).map wear, by simp, by simp [wear]⟩))
    · have := count_eq_zero.2 hr
      exact .inl (by omega)
  · have hpinned := eq_pinned h hread
    have hzero := count_eq_zero.2 hread
    rw [wear_pinned hpinned]
    by_cases hr : read ∈ r
    · obtain ⟨r1, r2, rfl, hnot⟩ := eq_append_cons_of_mem hr
      have hpass : ∀ a ∈ r1, decide (a ≠ read) = true := fun a ha => by
        rw [decide_eq_true_eq]
        rintro rfl
        exact hnot ha
      have hpass' : ∀ a ∈ l ++ unread :: r1, decide (a ≠ read) = true := by
        intro a ha
        rw [decide_eq_true_eq]
        rintro rfl
        simp [hread, hnot] at ha
      have hpair : [read, unread].Sublist (l ++ unread :: (r1 ++ read :: r2)) ↔
          [read, unread].Sublist (r1 ++ read :: r2 ++ l) := by
        have hnot' : read ∉ l ++ unread :: r1 := by simp [hread, hnot]
        rw [show l ++ unread :: (r1 ++ read :: r2) = (l ++ unread :: r1) ++ read :: r2 by simp,
          show r1 ++ read :: r2 ++ l = r1 ++ read :: (r2 ++ l) by simp, pair_of_first hnot', pair_of_first hnot]
        simp [h]
      have htake : (l ++ unread :: (r1 ++ read :: r2)).takeWhile (· ≠ read) = l ++ unread :: r1 := by
        rw [show l ++ unread :: (r1 ++ read :: r2) = (l ++ unread :: r1) ++ read :: r2 by simp,
          takeWhile_append_of_pos hpass']
        simp
      have htake' : (r1 ++ read :: r2 ++ l).takeWhile (· ≠ read) = r1 := by
        rw [append_assoc, takeWhile_append_of_pos hpass]
        simp
      rw [hpair, htake, htake', takeWhile_past]
      exact or_congr (by omega) (or_congr Iff.rfl (by omega))
    · have hzero' := count_eq_zero.2 hr
      exact iff_of_true (.inl (by omega)) (.inl (by omega))

theorem fits_of_read (hl : ∀ a ∈ l, a = pinned) (hr : unread ∉ r) (n : Nat) :
    Fits (n + 1) (l ++ read :: r) ↔ l.length ≤ (l ++ read :: r).count read := by
  have hpass : ∀ a ∈ l, decide (a ≠ read) = true := fun a ha => by simp [hl a ha]
  have hpass' : ∀ a ∈ l.reverse, decide (a = pinned) = true := fun a ha => by simp [hl a (mem_reverse.1 ha)]
  have hun : unread ∉ l ++ read :: r := by
    intro hin
    rcases mem_append.1 hin with hin | hin
    · cases hl _ hin
    · simp [hr] at hin
  have htake : (((l ++ read :: r).takeWhile (· ≠ read)).reverse.takeWhile (· = pinned)).length = l.length := by
    have hlast : l.reverse.takeWhile (· = pinned) = l.reverse := takeWhile_eq_self_iff.2 hpass'
    rw [takeWhile_append_of_pos hpass, takeWhile_cons_of_neg (by simp), append_nil, hlast,
      length_reverse]
  unfold Fits
  rw [htake, count_eq_zero.2 hun]
  constructor
  · rintro (hn | hpair | hle)
    · omega
    · exact absurd (hpair.mem (by simp)) hun
    · exact hle
  · exact fun hle => .inr (.inr hle)

theorem lasts_iff (n : Nat) (items : List Item) (h : n ≤ items.count unread + items.count read) :
    Lasts n items ↔ Fits n items := by
  induction n generalizing items with
  | zero => exact iff_of_true trivial (.inl (Nat.zero_le _))
  | succ n ih =>
    by_cases hun : unread ∈ items
    · obtain ⟨l, r, rfl, hnot⟩ := eq_append_cons_of_mem hun
      have hleft : (r ++ l.map wear).count unread + (r ++ l.map wear).count read + 1 =
          (l ++ unread :: r).count unread + (l ++ unread :: r).count read := by
        have hl := count_eq_zero.2 hnot
        simp only [count_append, count_cons_self, count_cons_of_ne (show unread ≠ read by decide),
          count_unread_wear hnot, count_read_wear]
        omega
      rw [fits_of_unread hnot h, ← ih _ (by omega), ← sweep_unread hnot]
      exact and_iff_right (.inl hun)
    · have hzero := count_eq_zero.2 hun
      have hread : read ∈ items := count_pos_iff.1 (by omega)
      obtain ⟨l, r, rfl, hnot⟩ := eq_append_cons_of_mem hread
      have hl := eq_pinned (fun hin => hun (mem_append_left _ hin)) hnot
      have hr : unread ∉ r := fun hin => hun (mem_append_right _ (mem_cons_of_mem _ hin))
      obtain ⟨hsweep, haffords⟩ := sweep_read hl hr
      rw [fits_of_read hl hr, ← haffords]
      refine and_iff_left ?_
      -- after it every item that can be taken is unread
      have hun' : unread ∉ r ++ l := by
        intro hin
        rcases mem_append.1 hin with hin | hin
        · exact hr hin
        · exact hun (mem_append_left _ hin)
      have hcount : (sweep (l ++ read :: r)).count unread = (r ++ l).count read := by
        rw [hsweep, count_unread_wear hun']
      have hsum : (l ++ read :: r).count read = (r ++ l).count read + 1 := by
        simp only [count_append, count_cons_self]
        omega
      rw [ih _ (by omega)]
      exact .inl (by omega)

end Item

end CacheSim.Lib
