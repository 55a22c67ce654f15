import Mathlib.Data.Finset.Max
import CacheSim.Radix.Refines

/-!
# Cold leaves

Evicting a block prunes the nodes that nothing needs any longer.
-/

namespace CacheSim.Radix

open Lib PrefixRadixTree List Option

structure Cold (t : PrefixRadixTree) (l : Ptr) (r : Run) : Prop where
  core : t.core l = some r
  below_root : l ≠ t.root_
  n_resident : r.n_resident = 0
  leaf : r.children.entries = []

def Leads (t : PrefixRadixTree) (x : ObjId) (l : Ptr) : Prop := ∃ path, NodePath t l path ∧ x ∈ path

variable {R : ObjId → List ObjId} {t t' : PrefixRadixTree}

/-! ## The way to a node -/

variable {p : Ptr}

variable {x : ObjId}

variable {id : ObjId}

structure Pruning (t₁ : PrefixRadixTree) (p : Ptr) (w : PrefixRadixTree × Ptr) : Prop where
  root : w.1.root_ = t₁.root_
  orphans : w.1.orphans_ = t₁.orphans_
  stays : ∀ l r, l ≠ p → Cold t₁ l r → Cold w.1 l r ∧ l ≠ w.2
  was : ∀ l r, l ≠ w.2 → Cold w.1 l r → Cold t₁ l r ∧ l ≠ p

theorem Pruning.step {t1 : PrefixRadixTree} {w w' : PrefixRadixTree × Ptr} (hw : Pruning t1 p w)
    (h : Good R w.1) (hprunable : prunable w = true) (hstep : prune_step w = some w') : Pruning t1 p w' := by
  obtain ⟨t, c⟩ := w
  simp only [prune_step, bind, bind_eq_some_iff] at hstep
  obtain ⟨n, hn, q, hq, m, hm, first, -, hw'⟩ := hstep
  simp only [prunable, Bool.and_eq_true, bne_iff_ne] at hprunable
  have hr := hprunable.1
  obtain ⟨q', mq, x, hq', hmq, -, hchild, -⟩ := h.shape.parent c n.toRun (core_of_heap hn) hr
  rw [hq] at hq'
  cases hq'
  rw [core_of_heap hm] at hmq
  cases hmq
  cases hw'
  have hcore : ∀ l ≠ c, l ≠ q → PrefixRadixTree.core { t with
      heap := Function.update (Function.update t.heap q (some { m with children := m.children.erase first })) c none
      index_ := n.blocks.foldl (unindex c) t.index_ } l = t.core l := by
    intro l hlc hlq
    unfold core
    dsimp only
    rw [Function.update_of_ne hlc, Function.update_of_ne hlq]
  -- the parent has a child, so it is not cold
  have hparent : ∀ l r, Cold t l r → l ≠ q := by
    rintro l r hcold rfl
    have hr' := hcold.core
    rw [core_of_heap hm] at hr'
    cases hr'
    have hin := AList.lookup_eq_none.2 (show x ∉ m.children by
      rw [AList.mem_keys, AList.keys, hcold.leaf]
      simp)
    rw [hchild] at hin
    cases hin
  refine ⟨hw.root, hw.orphans, fun l r hlp hcold => ?_, fun l r hlq hcold => ?_⟩
  · obtain ⟨hcold', hlc⟩ := hw.stays l r hlp hcold
    have hlq := hparent l r hcold'
    exact ⟨{ hcold' with core := (hcore l hlc hlq).trans hcold'.core }, hlq⟩
  · have hlc : l ≠ c := by
      rintro rfl
      have := hcold.core
      simp [core] at this
    have hcold' : Cold t l r := { hcold with core := (hcore l hlc hlq).symm.trans hcold.core }
    exact hw.was l r hlc hcold'

end CacheSim.Radix
