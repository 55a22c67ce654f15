import Mathlib.Data.Finset.Card

/-!
# Paging

A cache of `c` pages serves a sequence of requests, one page each.
-/

namespace CacheSim.Lib.Paging

open Finset

variable {ι : Type} [DecidableEq ι] {c : Nat} {x : ι} {xs : List ι} {B B' C C' S T : Finset ι}

/-- From contents `C`, some choice of evictions serves the requests with `h` hits. A miss loads its
page; what else stays is the strategy's choice. -/
inductive Serves (c : Nat) : Finset ι → List ι → Nat → Prop
  | nil (C : Finset ι) : Serves c C [] 0
  | hit {x : ι} {xs : List ι} {C C' : Finset ι} {h : Nat} : x ∈ C → C' ⊆ C → C'.card ≤ c →
      Serves c C' xs h → Serves c C (x :: xs) (h + 1)
  | miss {x : ι} {xs : List ι} {C C' : Finset ι} {h : Nat} : x ∉ C → x ∈ C' → C' ⊆ insert x C →
      C'.card ≤ c → Serves c C' xs h → Serves c C (x :: xs) h

/-- The same for the strategy that evicts only when it must, and then a page of furthest next use. -/
inductive Furthest (c : Nat) : Finset ι → List ι → Nat → Prop
  | nil (B : Finset ι) : Furthest c B [] 0
  | hit {x : ι} {xs : List ι} {B : Finset ι} {h : Nat} : x ∈ B → Furthest c B xs h →
      Furthest c B (x :: xs) (h + 1)
  | load {x : ι} {xs : List ι} {B : Finset ι} {h : Nat} : x ∉ B → B.card < c →
      Furthest c (insert x B) xs h → Furthest c B (x :: xs) h
  | replace {x : ι} {xs : List ι} {B : Finset ι} {h : Nat} (v : ι) : x ∉ B → B.card = c → v ∈ B →
      (∀ y ∈ B, xs.idxOf y ≤ xs.idxOf v) → Furthest c (insert x (B.erase v)) xs h →
      Furthest c B (x :: xs) h

def soon (xs : List ι) (τ : Nat) (S : Finset ι) : Nat := (S.filter (xs.idxOf · ≤ τ)).card

theorem soon_mono (xs : List ι) (τ : Nat) (h : S ⊆ T) : soon xs τ S ≤ soon xs τ T :=
  card_le_card (filter_subset_filter _ h)

theorem soon_le_card (xs : List ι) (τ : Nat) (S : Finset ι) : soon xs τ S ≤ S.card :=
  card_filter_le _ _

theorem soon_erase (xs : List ι) (τ : Nat) (hx : x ∈ S) : soon xs τ S = soon xs τ (S.erase x) + soon xs τ {x} := by
  unfold soon
  rw [← card_union_of_disjoint, ← filter_union, union_comm,
    ← insert_eq, insert_erase hx]
  exact disjoint_filter_filter (by simp)

theorem soon_le_erase (xs : List ι) (τ : Nat) (x : ι) (S : Finset ι) :
    soon xs τ S ≤ soon xs τ (S.erase x) + soon xs τ {x} := by
  rcases em (x ∈ S) with hx | hx
  · exact (soon_erase xs τ hx).le
  · rw [erase_eq_of_notMem hx]
    omega

theorem soon_cons_zero (x : ι) (xs : List ι) (S : Finset ι) : soon (x :: xs) 0 S = if x ∈ S then 1 else 0 := by
  have hfilter : S.filter ((x :: xs).idxOf · ≤ 0) = S.filter (· = x) := by
    apply filter_congr
    intro y _
    rcases em (y = x) with rfl | h
    · simp
    · simp [List.idxOf_cons_ne xs (fun h' : x = y => h h'.symm), h]
  unfold soon
  rw [hfilter, filter_eq']
  split_ifs <;> rfl

theorem soon_cons_succ (x : ι) (xs : List ι) (τ : Nat) (S : Finset ι) :
    soon (x :: xs) (τ + 1) S = soon xs τ (S.erase x) + if x ∈ S then 1 else 0 := by
  have hrest : soon (x :: xs) (τ + 1) (S.erase x) = soon xs τ (S.erase x) := by
    unfold soon
    congr 1
    apply filter_congr
    intro y hy
    rw [List.idxOf_cons_ne _ (ne_of_mem_erase hy).symm]
    omega
  rcases em (x ∈ S) with hx | hx
  · rw [soon_erase _ _ hx, hrest, if_pos hx]
    simp [soon, filter_singleton]
  · rw [if_neg hx, ← hrest, erase_eq_of_notMem hx]
    rfl

/-! ## The exchange argument -/

/-- At every horizon `C` holds at most `d` pages more than `B` that are used again by then. -/
def Ahead (xs : List ι) (C B : Finset ι) (d : Nat) : Prop :=
  ∀ τ < xs.length, soon xs τ C ≤ soon xs τ B + d

def KeepsNear (c : Nat) (xs : List ι) (x : ι) (B B' : Finset ι) : Prop :=
  B'.erase x = B.erase x ∨ ∃ v ∈ B, x ∉ B ∧ B.card = c ∧ (∀ y ∈ B, xs.idxOf y ≤ xs.idxOf v) ∧
    B'.erase x = B.erase v

theorem KeepsNear.soon_ge (h : KeepsNear c xs x B B') (τ : Nat) :
    soon xs τ (B.erase x) ≤ soon xs τ (B'.erase x) ∨ c - 1 ≤ soon xs τ (B'.erase x) := by
  rcases h with h | ⟨v, hv, hx, hc, hfar, h⟩
  · rw [h]
    exact Or.inl le_rfl
  · rw [h]
    rcases Nat.lt_or_ge τ (xs.idxOf v) with hτ | hτ
    · -- the victim was not needed by `τ`
      left
      rw [erase_eq_of_notMem hx, soon_erase xs τ hv]
      simp [soon, filter_singleton, Nat.not_le.2 hτ]
    · -- everything that stays is needed by `τ`
      right
      have hall : (B.erase v).filter (xs.idxOf · ≤ τ) = B.erase v := by
        apply filter_true_of_mem
        intro y hy
        exact (hfar y (mem_of_mem_erase hy)).trans hτ
      unfold soon
      rw [hall, card_erase_of_mem hv, hc]

theorem Ahead.step {d d' : Nat} (h : Ahead (x :: xs) C B d) (hC : C'.erase x ⊆ C.erase x)
    (hcard : (C'.erase x).card ≤ c - 1) (hx : x ∈ B') (hB : KeepsNear c xs x B B')
    (hd : d + (if x ∈ B then 1 else 0) = d' + (if x ∈ C then 1 else 0)) : Ahead xs C' B' d' := by
  intro τ hτ
  have hold := h (τ + 1) (Nat.succ_lt_succ hτ)
  rw [soon_cons_succ, soon_cons_succ] at hold
  have hsub := soon_mono xs τ hC
  have hmax := (soon_le_card xs τ (C'.erase x)).trans hcard
  have hC' := soon_le_erase xs τ x C'
  rw [soon_erase xs τ hx]
  rcases hB.soon_ge τ with hnear | hfull <;> omega

theorem Ahead.first {d : Nat} (h : Ahead (x :: xs) C B d) (hC : x ∈ C) (hB : x ∉ B) : 1 ≤ d := by
  have hzero := h 0 (Nat.succ_pos _)
  rw [soon_cons_zero, soon_cons_zero, if_pos hC, if_neg hB] at hzero
  omega

theorem furthest_step {d h' : Nat} (hahead : Ahead (x :: xs) C B d) (hcap : C.card ≤ c)
    (hB : KeepsNear c xs x B B') (hx : x ∈ B') (hC : Serves c C (x :: xs) h') :
    ∃ C' d' h'', C'.card ≤ c ∧ Serves c C' xs h'' ∧ Ahead xs C' B' d' ∧
      h' + d' = h'' + d + (if x ∈ B then 1 else 0) := by
  cases hC with
  | @hit _ _ _ C' h'' hxC hsub hcard hrest =>
    have hpos : 1 ≤ d + if x ∈ B then 1 else 0 := by
      split_ifs with hxB
      · omega
      · simpa using hahead.first hxC hxB
    refine ⟨C', d + (if x ∈ B then 1 else 0) - 1, h'', hcard, hrest, ?_, by omega⟩
    refine hahead.step (erase_subset_erase x hsub) ?_ hx hB (by rw [if_pos hxC]; omega)
    have hle := card_le_card (erase_subset_erase x hsub)
    rw [card_erase_of_mem hxC] at hle
    omega
  | @miss _ _ _ C' h'' hxC hxC' hsub hcard hrest =>
    refine ⟨C', d + (if x ∈ B then 1 else 0), h', hcard, hrest, ?_, by omega⟩
    refine hahead.step ?_ ?_ hx hB (by rw [if_neg hxC]; omega)
    · intro y hy
      have hyx := ne_of_mem_erase hy
      have hyC := mem_of_mem_insert_of_ne (hsub (mem_of_mem_erase hy)) hyx
      exact mem_erase.2 ⟨hyx, hyC⟩
    · rw [card_erase_of_mem hxC']
      omega

theorem hits_le_of_ahead {d h h' : Nat} (hB : Furthest c B xs h) (hC : Serves c C xs h')
    (hcap : C.card ≤ c) (hahead : Ahead xs C B d) : h' ≤ h + d := by
  induction hB generalizing C d h' with
  | nil B =>
    cases hC
    omega
  | hit hx _ ih =>
    obtain ⟨C', d', h'', hcap', hrest, hahead', heq⟩ :=
      furthest_step hahead hcap (Or.inl rfl) hx hC
    have := ih hrest hcap' hahead'
    rw [if_pos hx] at heq
    omega
  | @load x xs B _ hx _ _ ih =>
    have hkeep : KeepsNear c xs x B (insert x B) := Or.inl (erase_insert_eq_erase B x)
    obtain ⟨C', d', h'', hcap', hrest, hahead', heq⟩ :=
      furthest_step hahead hcap hkeep (mem_insert_self x B) hC
    have := ih hrest hcap' hahead'
    rw [if_neg hx] at heq
    omega
  | @replace x _ B _ v hx hc hv hfar _ ih =>
    have herase : (insert x (B.erase v)).erase x = B.erase v :=
      erase_insert fun hmem => hx (mem_of_mem_erase hmem)
    obtain ⟨C', d', h'', hcap', hrest, hahead', heq⟩ := furthest_step hahead hcap
      (Or.inr ⟨v, hv, hx, hc, hfar, herase⟩) (mem_insert_self x _) hC
    have := ih hrest hcap' hahead'
    rw [if_neg hx] at heq
    omega

theorem furthest_optimal {h h' : Nat} (hB : Furthest c ∅ xs h) (hC : Serves c ∅ xs h') : h' ≤ h := by
  have := hits_le_of_ahead (d := 0) hB hC (by simp) fun τ _ => by simp
  omega

end CacheSim.Lib.Paging
