import Mathlib.Data.List.Nodup

/-!
# Linked chains

A chain is what one meets when one follows the links from a head to the null pointer. `next` is `none`
where nothing is allocated.
-/

namespace CacheSim.Lib

open List

variable {α : Type} {next next' : α → Option (Option α)}

def Linked (next : α → Option (Option α)) : Option α → List α → Prop
  | head, [] => head = none
  | head, x :: l => head = some x ∧ ∃ tail, next x = some tail ∧ Linked next tail l

variable {l l₁ l₂ : List α} {x : α} {head : Option α}

theorem Linked.congr (h : Linked next head l) (heq : ∀ x ∈ l, next' x = next x) : Linked next' head l := by
  induction l generalizing head with
  | nil => exact h
  | cons x l ih =>
    obtain ⟨hhead, tail, htail, hl⟩ := h
    exact ⟨hhead, tail, (heq x (by simp)).trans htail, ih hl fun y hy => heq y (by simp [hy])⟩

theorem Linked.unique {l' : List α} (h : Linked next head l) (h' : Linked next head l') : l = l' := by
  induction l generalizing head l' with
  | nil =>
    cases l' with
    | nil => rfl
    | cons y l' => exact absurd (h.symm.trans h'.1) (by simp)
  | cons x l ih =>
    cases l' with
    | nil => exact absurd (h'.symm.trans h.1) (by simp)
    | cons y l' =>
      obtain ⟨hx, tail, htail, hl⟩ := h
      obtain ⟨hy, tail', htail', hl'⟩ := h'
      cases hx.symm.trans hy
      cases htail.symm.trans htail'
      rw [ih hl hl']

theorem Linked.split (h : Linked next head (l₁ ++ l₂)) : ∃ mid, Linked next mid l₂ := by
  induction l₁ generalizing head with
  | nil => exact ⟨head, h⟩
  | cons x l₁ ih =>
    obtain ⟨-, tail, -, hl⟩ := h
    exact ih hl

theorem Linked.nodup (h : Linked next head l) : l.Nodup := by
  induction l generalizing head with
  | nil => exact nodup_nil
  | cons x l ih =>
    obtain ⟨-, tail, htail, hl⟩ := h
    refine nodup_cons.2 ⟨?_, ih hl⟩
    intro hx
    obtain ⟨l₁, l₂, rfl⟩ := append_of_mem hx
    obtain ⟨mid, hmid⟩ := hl.split
    have hagain : Linked next (some x) (x :: (l₁ ++ x :: l₂)) := ⟨rfl, tail, htail, hl⟩
    have heq := congrArg List.length (hagain.unique (hmid.1 ▸ hmid))
    simp at heq
    omega

theorem Linked.next_isSome (h : Linked next head l) (hx : x ∈ l) : (next x).isSome := by
  obtain ⟨l₁, l₂, rfl⟩ := append_of_mem hx
  obtain ⟨mid, -, tail, htail, -⟩ := h.split
  simp [htail]

theorem Linked.unlink {head tail : Option α} {a : α} (h : Linked next head (l₁ ++ a :: x :: l₂))
    (hx : next x = some tail) (ha : next' a = some tail) (heq : ∀ y ≠ a, y ≠ x → next' y = next y) :
    Linked next' head (l₁ ++ a :: l₂) := by
  have hnodup := h.nodup
  induction l₁ generalizing head with
  | nil =>
    obtain ⟨hhead, mid, -, -, tail', htail', hl⟩ := h
    cases hx.symm.trans htail'
    refine ⟨hhead, tail, ha, hl.congr ?_⟩
    intro y hy
    simp only [nil_append, nodup_cons, mem_cons, not_or] at hnodup
    apply heq
    · rintro rfl
      exact hnodup.1.2 hy
    · rintro rfl
      exact hnodup.2.1 hy
  | cons z l₁ ih =>
    obtain ⟨hhead, mid, hmid, hl⟩ := h
    rw [cons_append, nodup_cons] at hnodup
    refine ⟨hhead, mid, ?_, ih hl hnodup.2⟩
    rw [heq z, hmid]
    · rintro rfl
      exact hnodup.1 (by simp)
    · rintro rfl
      exact hnodup.1 (by simp)

theorem Linked.mem_of_next (h : Linked next head l) {y : α} (hx : x ∈ l) (hy : next x = some (some y)) : y ∈ l := by
  obtain ⟨l₁, l₂, rfl⟩ := append_of_mem hx
  obtain ⟨mid, -, tail, htail, hl⟩ := h.split
  cases hy.symm.trans htail
  cases l₂ with
  | nil => exact absurd hl (by simp [Linked])
  | cons z l₂ =>
    cases hl.1
    simp

/-! ## Walking -/

def seek (next : α → Option (Option α)) (stop : α → Bool) : Nat → Option α → Option (Option α × Nat)
  | _, none => some (none, 0)
  | 0, some _ => none
  | fuel + 1, some x => do
    let tail ← next x
    if stop x then return (some x, 0)
    let (found, n) ← seek next stop fuel tail
    return (found, n + 1)

variable {fuel : Nat}

theorem Linked.seek (h : Linked next head l) (stop : α → Bool) (hfuel : l.length ≤ fuel) :
    Lib.seek next stop fuel head = some (l.find? stop, l.findIdx stop) := by
  induction l generalizing head fuel with
  | nil =>
    cases h
    simp [Lib.seek]
  | cons x l ih =>
    obtain ⟨rfl, tail, htail, hl⟩ := h
    cases fuel with
    | zero => simp at hfuel
    | succ fuel =>
      have htail' := ih hl (Nat.le_of_succ_le_succ hfuel)
      rw [Lib.seek, htail, find?_cons, findIdx_cons]
      cases hstop : stop x <;> simp [htail']

theorem Linked.find_before [DecidableEq α] {a : α} (h : Linked next head (l₁ ++ a :: x :: l₂)) :
    (l₁ ++ a :: x :: l₂).find? (fun y => next y = some (some x)) = some a ∧
      (l₁ ++ a :: x :: l₂).findIdx (fun y => next y = some (some x)) = l₁.length := by
  have hnodup := h.nodup
  induction l₁ generalizing head with
  | nil =>
    obtain ⟨-, tail, htail, rfl, -⟩ := h
    simp [htail, findIdx_cons]
  | cons y l₁ ih =>
    obtain ⟨-, tail, htail, hl⟩ := h
    rw [cons_append, nodup_cons] at hnodup
    obtain ⟨hfind, hidx⟩ := ih hl hnodup.2
    have hne : next y ≠ some (some x) := by
      intro heq
      cases heq.symm.trans htail
      -- `x` would be the head of the rest, and it stands behind `a`
      cases l₁ with
      | nil =>
        cases hl.1
        simp at hnodup
      | cons z l₁ =>
        cases hl.1
        simp at hnodup
    rw [cons_append, find?_cons_of_neg (by simpa using hne), findIdx_cons, hfind, hidx]
    simp [hne]

def walk (next : α → Option (Option α)) : Nat → Option α → List α
  | _, none => []
  | 0, some _ => []
  | fuel + 1, some x => x :: walk next fuel ((next x).getD none)

theorem Linked.walk (h : Linked next head l) (hfuel : l.length ≤ fuel) : Lib.walk next fuel head = l := by
  induction l generalizing head fuel with
  | nil =>
    cases h
    simp [Lib.walk]
  | cons x l ih =>
    obtain ⟨rfl, tail, htail, hl⟩ := h
    cases fuel with
    | zero => simp at hfuel
    | succ fuel => rw [Lib.walk, htail, Option.getD_some, ih hl (Nat.le_of_succ_le_succ hfuel)]

end CacheSim.Lib
