import CacheSim.Radix.Shape

/-!
# The nodes that can be sampled

`sampleable_` and `sample_idx` are inverse to each other, and list the nodes with a resident block.
-/

namespace CacheSim.Radix

open Lib PrefixRadixTree Function

def PrefixRadixTree.core (t : PrefixRadixTree) (p : Ptr) : Option Run := (t.heap p).map (·.toRun)

variable {t : PrefixRadixTree} {p : Ptr} {n : Node}

theorem PrefixRadixTree.core_some {r : Run} (h : t.core p = some r) :
    ∃ n : Node, t.heap p = some n ∧ n.toRun = r := Option.map_eq_some_iff.1 h

theorem PrefixRadixTree.core_of_heap (h : t.heap p = some n) : t.core p = some n.toRun := by
  unfold core
  rw [h]
  rfl

def samplePos (t : PrefixRadixTree) (p : Ptr) : Option Nat :=
  (t.heap p).bind fun n => if 0 ≤ n.sample_idx then some n.sample_idx.toNat else none

theorem samplePos_eq (h : t.heap p = some n) :
    samplePos t p = if 0 ≤ n.sample_idx then some n.sample_idx.toNat else none := by
  unfold samplePos
  rw [h]
  rfl

def Linked (t : PrefixRadixTree) : Prop := Positions (samplePos t) t.sampleable_

def Wanted (X : Finset Ptr) (t : PrefixRadixTree) : Prop :=
  ∀ p n, t.heap p = some n → p ∉ X → (0 ≤ n.sample_idx ↔ 0 < n.n_resident)

theorem Linked.congr {t' : PrefixRadixTree} (h : Linked t)
    (hidx : ∀ p, (t'.heap p).map (·.sample_idx) = (t.heap p).map (·.sample_idx))
    (hs : t'.sampleable_ = t.sampleable_) : Linked t' := by
  have hpos : samplePos t' = samplePos t := by
    funext p
    have := congrArg (fun o => o.bind fun i : Int => if 0 ≤ i then some i.toNat else none) (hidx p)
    simpa [samplePos, Option.bind_map] using this
  unfold Linked
  rw [hpos, hs]
  exact h

theorem Linked.set (h : Linked t) {n' : Node} (hp : t.heap p = some n)
    (hidx : n'.sample_idx = n.sample_idx) : Linked (t.set p n') := by
  refine h.congr (fun q => ?_) rfl
  unfold PrefixRadixTree.set
  dsimp only
  rcases eq_or_ne q p with rfl | hq
  · rw [update_self, hp]
    exact congrArg some hidx
  · rw [update_of_ne hq]

structure SameFields (t t' : PrefixRadixTree) : Prop where
  next : t'.next = t.next
  root : t'.root_ = t.root_
  index : t'.index_ = t.index_
  orphans : t'.orphans_ = t.orphans_
  ambiguous : t'.n_ambiguous_ = t.n_ambiguous_

theorem SameFields.refl (t : PrefixRadixTree) : SameFields t t := ⟨rfl, rfl, rfl, rfl, rfl⟩

theorem SameFields.trans {a b c : PrefixRadixTree} (h : SameFields a b) (h' : SameFields b c) : SameFields a c :=
  ⟨h'.next.trans h.next, h'.root.trans h.root, h'.index.trans h.index, h'.orphans.trans h.orphans,
    h'.ambiguous.trans h.ambiguous⟩

theorem core_set_idx {n' : Node} (hp : t.heap p = some n) (hrun : n'.toRun = n.toRun) : (t.set p n').core = t.core := by
  funext q
  unfold core PrefixRadixTree.set
  dsimp only
  rcases eq_or_ne q p with rfl | hq
  · rw [update_self, hp, Option.map_some, Option.map_some, hrun]
  · rw [update_of_ne hq]

theorem refresh_sampleable_spec {X : Finset Ptr}
    (hp : t.heap p = some n) (hl : Linked t) (hw : Wanted (insert p X) t) :
    ∃ t', t.refresh_sampleable p = some t' ∧ t'.core = t.core ∧ SameFields t t' ∧ Linked t' ∧ Wanted X t' := by
  have hothers : ∀ q m, t.heap q = some m → q ∉ X → q ≠ p → (0 ≤ m.sample_idx ↔ 0 < m.n_resident) := by
    intro q m hq hX hqp
    exact hw q m hq (by simp [hX, hqp])
  have hpos := samplePos_eq hp
  unfold refresh_sampleable
  simp only [hp, Option.bind_eq_bind, Option.bind_some]
  split_ifs with hsame hwant
  · refine ⟨t, rfl, rfl, .refl t, hl, ?_⟩
    intro q m hq hX
    rcases eq_or_ne q p with rfl | hqp
    · rw [hp] at hq
      cases hq
      have := Bool.eq_iff_iff.1 hsame
      simp only [decide_eq_true_eq] at this
      exact this.symm
    · exact hothers q m hq hX hqp
  · -- it goes to the end
    simp only [hwant, Bool.true_eq, decide_eq_true_eq] at hsame
    have hnone : samplePos t p = none := by rw [hpos, if_neg hsame]
    refine ⟨_, rfl, core_set_idx hp rfl, ⟨rfl, rfl, rfl, rfl, rfl⟩, ?_, ?_⟩
    · have := hl.push hnone
      unfold Linked
      convert this using 1
      funext q
      rcases eq_or_ne q p with rfl | hqp
      · simp [samplePos, PrefixRadixTree.set]
      · simp [samplePos, PrefixRadixTree.set, update_of_ne hqp]
    · intro q m hq hX
      simp only [PrefixRadixTree.set] at hq
      rcases eq_or_ne q p with rfl | hqp
      · rw [update_self] at hq
        cases hq
        simpa using hwant
      · rw [update_of_ne hqp] at hq
        exact hothers q m hq hX hqp
  · -- the last one takes its place
    have hwant' : ¬ 0 < n.n_resident := by simpa using hwant
    have hidx : 0 ≤ n.sample_idx := by
      by_contra hneg
      apply hsame
      simp [hwant', hneg]
    have hsome : samplePos t p = some n.sample_idx.toNat := by rw [hpos, if_pos hidx]
    have hlt := hl.lt hsome
    obtain ⟨last, hlast⟩ : ∃ last, t.sampleable_.getLast? = some last :=
      ⟨_, List.getLast?_eq_some_getLast (List.ne_nil_of_length_pos (by omega))⟩
    obtain ⟨j, hj⟩ := (hl.mem_iff last).1 (List.mem_of_getLast? hlast)
    obtain ⟨ln, hln, hlidx⟩ : ∃ ln, t.heap last = some ln ∧ 0 ≤ ln.sample_idx := by
      obtain ⟨ln, hln, hite⟩ := Option.bind_eq_some_iff.1 hj
      split_ifs at hite with hge
      exact ⟨ln, hln, hge⟩
    have hnode : ∃ n', update t.heap last (some { ln with sample_idx := n.sample_idx.toNat }) p = some n' ∧
        n'.toRun = n.toRun := by
      rcases eq_or_ne p last with rfl | hne
      · rw [hp] at hln
        cases hln
        exact ⟨_, update_self .., rfl⟩
      · exact ⟨n, by rw [update_of_ne hne]; exact hp, rfl⟩
    obtain ⟨n', hn', hrun⟩ := hnode
    simp only [hlast, hlt, Option.bind_some, hln, PrefixRadixTree.set, hn']
    refine ⟨_, rfl, ?_, ⟨rfl, rfl, rfl, rfl, rfl⟩, ?_, ?_⟩
    · have h1 : (t.set last { ln with sample_idx := n.sample_idx.toNat }).core = t.core := core_set_idx hln rfl
      have h2 : ((t.set last { ln with sample_idx := n.sample_idx.toNat }).set p
          { n' with sample_idx := -1 }).core = (t.set last { ln with sample_idx := n.sample_idx.toNat }).core :=
        core_set_idx hn' rfl
      exact h2.trans h1
    · have := hl.swapRemove hsome hlast
      unfold Linked
      convert this using 1
      funext q
      rcases eq_or_ne q p with rfl | hqp
      · simp [samplePos]
      · rcases eq_or_ne q last with rfl | hql
        · simp [samplePos, update_of_ne hqp, hidx]
        · simp [samplePos, update_of_ne hqp, update_of_ne hql]
    · intro q m hq hX
      dsimp only at hq
      rcases eq_or_ne q p with rfl | hqp
      · rw [update_self] at hq
        cases hq
        rw [show n'.n_resident = n.n_resident from congrArg Run.n_resident hrun]
        simp [hwant']
      · rw [update_of_ne hqp] at hq
        rcases eq_or_ne q last with rfl | hql
        · rw [update_self] at hq
          cases hq
          have := hothers q ln hln hX hqp
          rw [← this]
          simp [hlidx]
        · rw [update_of_ne hql] at hq
          exact hothers q m hq hX hqp

end CacheSim.Radix
