import Mathlib.Algebra.Order.BigOperators.Group.Finset
import Mathlib.Data.List.AList

/-!
# Reference counts

Owners hold lists of things. A thing is counted once for each place where an owner's list names it.
-/

namespace CacheSim.Lib

open scoped BigOperators

variable {ι α : Type} [DecidableEq α]

def refs (L : Finset ι) (path : ι → List α) (a : α) : Nat := ∑ s ∈ L, (path s).count a

def named (L : Finset ι) (path : ι → List α) : Finset α := L.biUnion fun s => (path s).toFinset

variable {L : Finset ι} {path : ι → List α}

theorem mem_named {a : α} : a ∈ named L path ↔ ∃ s ∈ L, a ∈ path s := by simp [named]

theorem refs_pos {a : α} : 0 < refs L path a ↔ a ∈ named L path := by
  unfold refs
  rw [mem_named, Nat.pos_iff_ne_zero, Ne, Finset.sum_eq_zero_iff]
  simp only [List.count_eq_zero]
  push Not
  rfl

variable {p q : ι → List α}

theorem refs_congr (h : ∀ s ∈ L, p s = q s) : refs L p = refs L q := by
  funext a
  apply Finset.sum_congr rfl
  intro s hs
  rw [h s hs]

theorem named_congr (h : ∀ s ∈ L, p s = q s) : named L p = named L q := by
  ext a
  rw [← refs_pos, ← refs_pos, refs_congr h]

theorem named_mono {L' : Finset ι} (h : L' ⊆ L) : named L' path ⊆ named L path :=
  Finset.biUnion_subset_biUnion_of_subset_left _ h

variable [DecidableEq ι] {s : ι}

theorem refs_erase (p : ι → List α) (hs : s ∈ L) (a : α) : (p s).count a + refs (L.erase s) p a = refs L p a :=
  Finset.add_sum_erase L (fun s => (p s).count a) hs

theorem refs_insert (h : ∀ t ≠ s, q t = p t) (a : α) : refs (insert s L) q a = (q s).count a + refs (L.erase s) p a := by
  unfold refs
  rw [← Finset.add_sum_erase _ _ (Finset.mem_insert_self s L), Finset.erase_insert_eq_erase]
  congr 1
  apply Finset.sum_congr rfl
  intro t ht
  rw [h t (Finset.ne_of_mem_erase ht)]

/-! ## Keys of an association list -/

variable {β : Type}

def keySet (l : AList fun _ : ι => β) : Finset ι := l.keys.toFinset

variable {l : AList fun _ : ι => β}

@[simp] theorem mem_keySet : s ∈ keySet l ↔ s ∈ l := by
  unfold keySet
  rw [List.mem_toFinset, AList.mem_keys]

theorem mem_keySet_lookup : s ∈ keySet l ↔ ∃ b, l.lookup s = some b := by
  rw [mem_keySet, ← AList.lookup_isSome, Option.isSome_iff_exists]

theorem keySet_erase (l : AList fun _ : ι => β) (s : ι) : keySet (l.erase s) = (keySet l).erase s := by
  ext t
  rw [mem_keySet, AList.mem_erase, Finset.mem_erase, mem_keySet]

theorem keySet_insert (l : AList fun _ : ι => β) (s : ι) (b : β) : keySet (l.insert s b) = insert s (keySet l) := by
  ext t
  rw [mem_keySet, AList.mem_insert, Finset.mem_insert, mem_keySet]

theorem card_keySet (l : AList fun _ : ι => β) : (keySet l).card = l.keys.length :=
  List.toFinset_card_of_nodup l.keys_nodup

theorem keySet_eq_of_lookup {l l' : AList fun _ : ι => β} {γ : Type} {f : β → γ}
    (h : ∀ s, (l'.lookup s).map f = (l.lookup s).map f) : keySet l' = keySet l := by
  ext s
  rw [mem_keySet, mem_keySet, ← AList.lookup_isSome, ← AList.lookup_isSome, ← Option.isSome_map,
    h s, Option.isSome_map]

end CacheSim.Lib
