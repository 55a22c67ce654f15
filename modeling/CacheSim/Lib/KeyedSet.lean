import Mathlib.Data.List.MinMax

/-!
# Ordered sets that compare keys

A set takes two entries for the same when their keys are. A map next to it tells which entry is whose.
-/

namespace CacheSim.Lib

open List Function


variable {ι ε κ : Type} [LinearOrder κ]

def set_insert (key : ε → κ) (e : ε) (l : List ε) : List ε := if ∃ a ∈ l, key a = key e then l else e :: l

def set_erase (key : ε → κ) (e : ε) (l : List ε) : List ε := l.filter (key · ≠ key e)

/-- The set holds the entries of the map, and each has a key of its own. -/
structure Indexed (key : ε → κ) (l : List ε) (m : ι → Option ε) : Prop where
  nodup : l.Nodup
  mem : ∀ e, e ∈ l ↔ ∃ i, m i = some e
  inj : ∀ i j e e', m i = some e → m j = some e' → key e = key e' → i = j

variable {key : ε → κ} {l : List ε} {m : ι → Option ε} {i : ι} {e e' : ε}

omit [LinearOrder κ] in
theorem indexed_empty (key : ε → κ) : Indexed key [] (fun _ : ι => none) := by
  constructor <;> simp

namespace Indexed

variable [DecidableEq ι]

section

variable (h : Indexed key l m)
include h

theorem insert (hi : m i = none) (hfresh : ∀ a ∈ l, key a ≠ key e) :
    Indexed key (set_insert key e l) (update m i (some e)) := by
  have hnew : set_insert key e l = e :: l := if_neg fun ⟨a, ha, heq⟩ => hfresh a ha heq
  have hsplit {j : ι} {a : ε} (hj : update m i (some e) j = some a) : j = i ∧ a = e ∨ m j = some a ∧ a ∈ l := by
    rcases eq_or_ne j i with rfl | hne
    · rw [update_self] at hj
      exact .inl ⟨rfl, (Option.some.inj hj).symm⟩
    · rw [update_of_ne hne] at hj
      exact .inr ⟨hj, (h.mem a).2 ⟨j, hj⟩⟩
  rw [hnew]
  refine ⟨nodup_cons.2 ⟨fun he => hfresh e he rfl, h.nodup⟩, fun a => ?_, fun j k a b hj hk heq => ?_⟩
  · rw [mem_cons, h.mem]
    constructor
    · rintro (rfl | ⟨j, hj⟩)
      · exact ⟨i, update_self ..⟩
      · refine ⟨j, ?_⟩
        rw [update_of_ne, hj]
        rintro rfl
        simp [hi] at hj
    · rintro ⟨j, hj⟩
      rcases hsplit hj with ⟨-, rfl⟩ | ⟨hj, -⟩
      · exact .inl rfl
      · exact .inr ⟨j, hj⟩
  · rcases hsplit hj with ⟨rfl, rfl⟩ | ⟨hj, ha⟩ <;> rcases hsplit hk with ⟨rfl, rfl⟩ | ⟨hk, hb⟩
    · rfl
    · exact absurd heq.symm (hfresh b hb)
    · exact absurd heq (hfresh a ha)
    · exact h.inj j k a b hj hk heq

theorem erase (hi : m i = some e) : Indexed key (set_erase key e l) (update m i none) := by
  have hmem {j : ι} {a : ε} : update m i none j = some a ↔ j ≠ i ∧ m j = some a := by
    rcases eq_or_ne j i with rfl | hne <;> simp [*]
  refine ⟨h.nodup.filter _, fun a => ?_, fun j k a b hj hk => h.inj j k a b (hmem.1 hj).2 (hmem.1 hk).2⟩
  simp only [set_erase, mem_filter, decide_eq_true_eq, h.mem, hmem]
  constructor
  · rintro ⟨⟨j, hj⟩, hne⟩
    refine ⟨j, ?_, hj⟩
    rintro rfl
    cases hi.symm.trans hj
    exact hne rfl
  · rintro ⟨j, hne, hj⟩
    exact ⟨⟨j, hj⟩, fun heq => hne (h.inj j i a e hj hi heq)⟩

theorem rekey (hi : m i = some e) (hfresh : ∀ a ∈ l, a ≠ e → key a ≠ key e') :
    Indexed key (set_insert key e' (set_erase key e l)) (update m i (some e')) := by
  have hins := (h.erase hi).insert (update_self i none m) fun a ha => by
    obtain ⟨hal, hne⟩ := mem_filter.1 ha
    apply hfresh a hal
    rintro rfl
    simp at hne
  rw [update_idem] at hins
  exact hins

end

end Indexed

/-- `*set.begin()` is the only least entry. -/
theorem Indexed.begin (h : Indexed key l m) (hi : m i = some e) :
    ∃ j a, l.argmin key = some a ∧ m j = some a ∧ ∀ k b, m k = some b → k ≠ j → key a < key b := by
  have hne : l.argmin key ≠ none := by
    rw [Ne, argmin_eq_none]
    rintro rfl
    exact not_mem_nil ((h.mem e).2 ⟨i, hi⟩)
  obtain ⟨a, ha⟩ := Option.ne_none_iff_exists'.1 hne
  obtain ⟨j, hj⟩ := (h.mem a).1 (argmin_mem ha)
  refine ⟨j, a, ha, hj, fun k b hk hkj => ?_⟩
  have hle : key a ≤ key b := le_of_mem_argmin ((h.mem b).2 ⟨k, hk⟩) ha
  exact hle.lt_of_ne fun heq => hkj (h.inj k j b a hk hj heq.symm)

end CacheSim.Lib
