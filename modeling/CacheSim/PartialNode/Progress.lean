import CacheSim.PartialNode.Proofs
import CacheSim.Radix.Candidates
import CacheSim.Radix.Cold

/-!
# How far an eviction gets

Orphans go first and only once. A block that is promoted after its path was pruned is an orphan that
no later stage looks at, and a small queue of promotions alone leaves the last stage without a block
to drop.
-/

namespace CacheSim.PartialNode

open Lib Radix PrefixRadixTree List Option AList Finset
open Bool (and_eq_true false_eq_true not_eq_true')

section

variable {ε β : Type} (A : Algorithm ε β) (s : State ε)

def promotable (id : ObjId) : Bool := (s.hashtable.lookup id).any fun obj => obj.freq ≥ A.move_to_main_threshold

def Outlasts (warm : List ObjId) (id : ObjId) : Prop :=
  ∃ l r, Cold s.tree l r ∧ Leads s.tree id l ∧ ∀ y ∈ warm, y ∉ r.blocks

/-- The last loop gets through the small queue once main is empty: it has bytes whenever it is looked
at, a promoted block is in the tree, and a block that is dropped follows. The blocks of `warm` were
promoted and are gone again, those of `pending` were promoted since the last drop. -/
def Falls : List ObjId → List ObjId → List ObjId → Prop
  | _, pending, [] => pending = []
  | warm, pending, id :: q =>
    (pending = [] → 0 < bytesOf s.hashtable (id :: q)) ∧
      if promotable A s id then Outlasts s warm id ∧ Falls warm (id :: pending) q
      else Falls (pending ++ warm) [] q

/-- The small queue is drained while it has bytes and main, with `main` bytes, is within its share:
the test is made after a drop, not `inside` a walk. -/
def Drains : Int → Bool → List ObjId → List ObjId → Prop
  | _, _, _, [] => True
  | main, inside, warm, id :: q =>
    if inside = true ∨ 0 < bytesOf s.hashtable (id :: q) ∧ main ≤ s.cache_size - s.small_capacity then
      if promotable A s id then
        s.tree.index_ id ≠ none ∧ Drains (main + sizeIn s.hashtable id) true (id :: warm) q
      else Drains main false warm q
    else Falls A s warm [] (id :: q)

def orphan_bytes : Int := ∑ id ∈ s.tree.orphans_, sizeIn s.hashtable id

def Clears : Prop := Drains A s (s.main_occupied - orphan_bytes s) false [] s.small

end

variable {ε β : Type} {A : Algorithm ε β} {R : ObjId → List ObjId} {s s' : State ε}

/-! ## One pass over the queue -/

variable {q w ps : List ObjId} {u : State ε} {id : ObjId} {p : Ptr} {w' : Progress ε} {n : Int} {d : ObjId}

structure Follows (s s' : State ε) (warm : List ObjId) : Prop where
  cache_size : s'.cache_size = s.cache_size
  small_capacity : s'.small_capacity = s.small_capacity
  cold : ∀ l r, Cold s'.tree l r ↔ Cold s.tree l r ∧ ∀ y ∈ warm, y ∉ r.blocks
  held : ∀ x ∈ s'.hashtable, x ∈ s.hashtable
  small : ∀ x ∈ s'.small, x ∈ s.small
  lookup : ∀ x ∈ s'.small, s'.hashtable.lookup x = s.hashtable.lookup x

theorem Follows.refl (s : State ε) : Follows s s [] := ⟨rfl, rfl, by simp, fun _ hx => hx, fun _ hx => hx, fun _ _ => rfl⟩

theorem Follows.trans {t : State ε} {w' : List ObjId} (h : Follows s t w) (h' : Follows t u w') : Follows s u (w ++ w') := by
  refine ⟨h'.cache_size.trans h.cache_size, h'.small_capacity.trans h.small_capacity, fun l r => ?_,
    fun x hx => h.held x (h'.held x hx), fun x hx => h.small x (h'.small x hx),
      fun x hx => (h'.lookup x hx).trans (h.lookup x (h'.small x hx))⟩
  rw [h'.cold, h.cold, forall_mem_append, and_assoc]

variable {x : ObjId}

theorem Follows.size_eq (h : Follows s s' w) (hx : x ∈ s'.small) : sizeIn s'.hashtable x = sizeIn s.hashtable x := by
  unfold sizeIn
  rw [h.lookup x hx]

theorem Follows.bytes_eq (h : Follows s s' w) (hq : ∀ x ∈ q, x ∈ s'.small) :
    bytesOf s'.hashtable q = bytesOf s.hashtable q := bytesOf_congr fun x hx => h.size_eq (hq x hx)

section

variable (h : Follows s s' ps)
include h

end

/-! ## What the stages do to it -/

structure Walked (s s' : State ε) (pending : List ObjId) : Prop extends Follows s s' pending where
  main : s'.main_occupied = s.main_occupied + bytesOf s.hashtable pending
  index : s'.tree.index_ = s.tree.index_
  orphans : s'.tree.orphans_ = ∅ ↔ s.tree.orphans_ = ∅ ∧ ∀ x ∈ pending, s.tree.index_ x ≠ none

theorem Walked.refl (s : State ε) : Walked s s [] := ⟨.refl s, by simp [bytesOf], rfl, by simp⟩

theorem Walked.trans {t : State ε} {qs : List ObjId} (h : Walked s t ps) (h' : Walked t u qs)
    (hqs : ∀ x ∈ qs, x ∈ t.small) : Walked s u (ps ++ qs) := by
  refine ⟨h.toFollows.trans h'.toFollows, ?_, h'.index.trans h.index, ?_⟩
  · rw [h'.main, h.main, h.toFollows.bytes_eq hqs]
    simp [bytesOf, add_assoc]
  · rw [h'.orphans, h.orphans, h.index, forall_mem_append, and_assoc]

variable {dropped : Bool}

variable {node : Node}

section

variable (hbest : ∀ u id obj, A.lt (A.score u id obj) A.DBL_MAX = true)
include hbest

end

end CacheSim.PartialNode
