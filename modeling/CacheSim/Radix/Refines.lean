import CacheSim.Radix.Add

/-!
# The tree as a set of resident blocks and a set of paths
-/

namespace CacheSim.Radix

open Lib PrefixRadixTree List

inductive Op where
  | add_sequence (ids : List ObjId)
  | mark_resident (id : ObjId)
  | mark_evicted (id : ObjId)
deriving DecidableEq, Repr

def step (t : PrefixRadixTree) : Op → Option PrefixRadixTree
  | .add_sequence ids => t.add_sequence ids
  | .mark_resident id => t.mark_resident id
  | .mark_evicted id => (t.mark_evicted id).map (·.1)

def recorded (ops : List Op) : List (List ObjId) :=
  ops.filterMap fun
    | .add_sequence ids => some ids
    | _ => none

/-- An id always comes after the same path, so also at most once in a sequence. -/
def PrefixUnique (seqs : List (List ObjId)) : Prop :=
  ∀ s ∈ seqs, ∀ u ∈ seqs, ∀ (i j : Nat) (x : ObjId), s[i]? = some x → u[j]? = some x → s.take i = u.take j

variable {seqs : List (List ObjId)}

theorem PrefixUnique.of_same {l : List ObjId} (hl : l.Nodup) (h : ∀ s ∈ seqs, s = l) : PrefixUnique seqs := by
  intro s hs u hu i j x hi hj
  rw [h s hs] at hi ⊢
  rw [h u hu] at hj ⊢
  obtain ⟨hi', hix⟩ := List.getElem?_eq_some_iff.1 hi
  obtain ⟨hj', hjx⟩ := List.getElem?_eq_some_iff.1 hj
  rw [hl.getElem_inj_iff.1 (hix.trans hjx.symm)]

def marked (ops : List Op) (id : ObjId) : Bool :=
  ops.foldl (fun b op => match op with
    | .add_sequence _ => b
    | .mark_resident x => if x = id then true else b
    | .mark_evicted x => if x = id then false else b) false

def standingStep (id : ObjId) (s : Bool × Bool) : Op → Bool × Bool
  | .add_sequence ids => (s.1 || ids.contains id, s.2)
  | .mark_resident x => (s.1, if x = id then true else s.2)
  | .mark_evicted x => if x = id then (false, false) else (s.1 && s.2, s.2)

/-- The id was recorded, and since then it was resident whenever a block was evicted. A recorded id
that is not resident then may be forgotten: its node can become a cold leaf. -/
def standing (ops : List Op) (id : ObjId) : Bool := (ops.foldl (standingStep id) (false, false)).1

/-- `l` is the path from the root to the end of the node, along the `parent` pointers. -/
inductive NodePath (t : PrefixRadixTree) : Ptr → List ObjId → Prop
  | root : NodePath t t.root_ []
  | node {p q : Ptr} {n : Node} {l : List ObjId} : t.heap p = some n → p ≠ t.root_ → n.parent = some q →
      NodePath t q l → NodePath t p (l ++ n.blocks)

def BlockPath (t : PrefixRadixTree) (id : ObjId) (path : List ObjId) : Prop :=
  ∃ p i n q l, t.index_ id = some (p, i) ∧ t.heap p = some n ∧ n.parent = some q ∧ NodePath t q l ∧
    path = l ++ n.blocks.take (i + 1)

structure Refines (ops : List Op) (t : PrefixRadixTree) : Prop where
  resident : ∀ id, t.is_resident id = some (marked ops id)
  once : ∀ (id : ObjId) (p q : Ptr) (n m : Node) (i j : Nat), t.heap p = some n → n.blocks[i]? = some id → t.heap q = some m →
    m.blocks[j]? = some id → p = q ∧ i = j
  index : ∀ id p i, t.index_ id = some (p, i) ↔ ∃ n, t.heap p = some n ∧ n.blocks[i]? = some id
  flags : ∀ p n, t.heap p = some n →
    n.resident.length = n.blocks.length ∧ n.n_resident = n.resident.count true
  sampled : ∀ p, p ∈ t.sampleable_ ↔ ∃ n, t.heap p = some n ∧ 0 < n.n_resident
  sampled_once : t.sampleable_.Nodup
  sample_idx : ∀ (i : Nat) (p : Ptr), t.sampleable_[i]? = some p → ∃ n, t.heap p = some n ∧ n.sample_idx = i
  orphans : ∀ id ∈ t.orphans_, t.index_ id = none
  path : ∀ id p i, t.index_ id = some (p, i) → (∃ s ∈ recorded ops, id ∈ s) ∧
    ∀ s ∈ recorded ops, ∀ k : Nat, s[k]? = some id → BlockPath t id (s.take (k + 1))
  standing : ∀ id, standing ops id = true → t.index_ id ≠ none
  unambiguous : t.n_ambiguous_ = 0

open Classical in
noncomputable def recordedPath (seqs : List (List ObjId)) (x : ObjId) : List ObjId :=
  if h : ∃ s ∈ seqs, ∃ i, s[i]? = some x then h.choose.take (h.choose_spec.2.choose + 1) else []

theorem recordedPath_spec {x : ObjId} (h : recordedPath seqs x ≠ []) :
    ∃ s ∈ seqs, ∃ i, s[i]? = some x ∧ recordedPath seqs x = s.take (i + 1) := by
  unfold recordedPath at h ⊢
  split_ifs at h ⊢ with hex
  · exact ⟨hex.choose, hex.choose_spec.1, hex.choose_spec.2.choose, hex.choose_spec.2.choose_spec, rfl⟩
  · exact absurd rfl h

theorem PrefixUnique.recorded (h : PrefixUnique seqs) {s : List ObjId} (hs : s ∈ seqs) : Recorded (recordedPath seqs) s := by
  intro i x hx
  have hex : ∃ s ∈ seqs, ∃ i, s[i]? = some x := ⟨s, hs, i, hx⟩
  unfold recordedPath
  rw [dif_pos hex]
  have hx' := hex.choose_spec.2.choose_spec
  have hpre := h _ hex.choose_spec.1 s hs _ i x hx' hx
  rw [take_add_one, take_add_one, hx', hx, hpre]

/-! ## Runs -/

theorem marked_append (ops : List Op) (op : Op) (id : ObjId) : marked (ops ++ [op]) id =
    match op with
    | .add_sequence _ => marked ops id
    | .mark_resident x => if x = id then true else marked ops id
    | .mark_evicted x => if x = id then false else marked ops id := by
  unfold marked
  rw [foldl_append]
  cases op <;> rfl

theorem standing_append (ops : List Op) (op : Op) (id : ObjId) : standing (ops ++ [op]) id =
    match op with
    | .add_sequence ids => standing ops id || ids.contains id
    | .mark_resident _ => standing ops id
    | .mark_evicted _ => standing ops id && marked (ops ++ [op]) id := by
  have hmarked : (ops.foldl (standingStep id) (false, false)).2 = marked ops id := by
    induction ops using List.reverseRecOn with
    | nil => rfl
    | append_singleton ops op ih =>
      rw [marked_append, foldl_append, ← ih]
      cases op with
      | add_sequence ids => rfl
      | mark_resident x => rfl
      | mark_evicted x =>
        simp only [foldl_cons, foldl_nil, standingStep]
        split_ifs <;> rfl
  unfold standing
  rw [marked_append, foldl_append, ← hmarked]
  cases op with
  | add_sequence ids => rfl
  | mark_resident x => rfl
  | mark_evicted x =>
    simp only [foldl_cons, foldl_nil, standingStep]
    split_ifs <;> simp

variable {R : ObjId → List ObjId} {t : PrefixRadixTree} {ops : List Op}

theorem step_spec (h : Good R t)
    (hres : ∀ id, Resident t id ↔ marked ops id = true) (hstand : ∀ id, standing ops id = true → t.index_ id ≠ none)
    (op : Op) (hop : ∀ ids, op = .add_sequence ids → Recorded R ids) :
    ∃ t', step t op = some t' ∧ Good R t' ∧ (∀ id, Resident t' id ↔ marked (ops ++ [op]) id = true) ∧
      ∀ id, standing (ops ++ [op]) id = true → t'.index_ id ≠ none := by
  unfold step
  cases op with
  | add_sequence ids =>
    obtain ⟨t', ht', hg, hr, hidx⟩ := add_sequence_spec h (hop ids rfl)
    refine ⟨t', ht', hg, fun id => ?_, fun id hs hnone => ?_⟩
    · rw [hr, hres, marked_append]
    · obtain ⟨hold, hmem⟩ := hidx id hnone
      simp only [standing_append, Bool.or_eq_true, contains_iff_mem, hmem, or_false] at hs
      exact hstand id hs hold
  | mark_resident x =>
    obtain ⟨t', ht', hg, hr, hidx⟩ := mark_resident_spec h x
    refine ⟨t', ht', hg, fun id => ?_, fun id hs => ?_⟩
    · rw [hr, hres, marked_append]
      rcases eq_or_ne x id with rfl | hx
      · simp
      · simp [hx, Ne.symm hx]
    · rw [standing_append] at hs
      rw [hidx]
      exact hstand id hs
  | mark_evicted x =>
    obtain ⟨t', kept, ht', hg, hr, ho⟩ := mark_evicted_spec h x
    have hmark : ∀ id, Resident t' id ↔ marked (ops ++ [.mark_evicted x]) id = true := by
      intro id
      rw [hr, hres, marked_append]
      rcases eq_or_ne x id with rfl | hx
      · simp
      · simp [hx, Ne.symm hx]
    refine ⟨t', by simp [ht'], hg, hmark, fun id hs hnone => ?_⟩
    -- a resident block outside the index is an orphan, and eviction makes no orphan
    rw [standing_append, Bool.and_eq_true, ← hmark, resident_of_none hnone, ho] at hs
    exact hstand id hs.1 (h.orphans id (Finset.mem_of_mem_erase hs.2))

theorem run_spec (ops : List Op) :
    (∀ ids, Op.add_sequence ids ∈ ops → Recorded R ids) →
    ∃ t, runs step PrefixRadixTree.init ops = some t ∧ Good R t ∧
      (∀ id, Resident t id ↔ marked ops id = true) ∧ ∀ id, standing ops id = true → t.index_ id ≠ none := by
  induction ops using List.reverseRecOn with
  | nil =>
    intro _
    refine ⟨_, rfl, init_good R, fun id => ?_, by simp [standing]⟩
    rw [resident_of_none rfl]
    simp [PrefixRadixTree.init, marked]
  | append_singleton ops op ih =>
    intro hall
    obtain ⟨t, hrun, hg, hres, hstand⟩ := ih (fun ids hids => hall ids (by simp [hids]))
    obtain ⟨t', hstep, hg', hres'⟩ := step_spec hg hres hstand op (fun ids hids => hall ids (by simp [hids]))
    exact ⟨t', by rw [runs_append, hrun, Option.bind_some, runs_cons, hstep]; rfl, hg', hres'⟩

theorem node_path (h : Good R t) : ∀ (k : Nat) (p : Ptr) (n : Node),
    t.heap p = some n → (endPath R n.toRun).length ≤ k → NodePath t p (endPath R n.toRun) := by
  intro k
  induction k with
  | zero =>
    intro p n hp hk
    have hnil : endPath R n.toRun = [] := length_eq_zero_iff.1 (by omega)
    have hroot : p = t.root_ := by
      apply h.shape.root_of_nil (core_of_heap hp)
      have := h.shape.endPath_getLast? (core_of_heap hp)
      rw [hnil] at this
      exact getLast?_eq_none_iff.1 this.symm
    rw [hnil, hroot]
    exact .root
  | succ k ih =>
    intro p n hp hk
    rcases eq_or_ne p t.root_ with rfl | hr
    · obtain ⟨m, hm, hnil⟩ := h.shape.rooted
      rw [core_of_heap hp] at hm
      cases hm
      rw [Shape.endPath_nil hnil]
      exact .root
    · have hcore := core_of_heap hp
      obtain ⟨q, m, x, hq, hm, -, -, hpath⟩ := h.shape.parent p n.toRun hcore hr
      obtain ⟨mq, hmq, rfl⟩ := core_some hm
      obtain ⟨z, hz⟩ := Option.ne_none_iff_exists'.1
        (fun hnone => h.shape.blocks_ne_nil hcore hr (getLast?_eq_none_iff.1 hnone))
      have hpos := length_pos_iff.2 (h.shape.blocks_ne_nil hcore hr)
      have hend : endPath R n.toRun = endPath R mq.toRun ++ n.blocks := by
        rw [Shape.endPath_last hz, hpath _ z (Shape.getLast?_getElem? hz), Nat.sub_add_cancel hpos,
          take_of_length_le le_rfl]
      rw [hend, length_append] at hk
      rw [hend]
      exact .node hp hr hq (ih q mq hmq (by omega))

theorem Good.refines (hunique : PrefixUnique (recorded ops))
    (h : Good (recordedPath (recorded ops)) t) (hres : ∀ id, Resident t id ↔ marked ops id = true)
    (hstand : ∀ id, standing ops id = true → t.index_ id ≠ none) : Refines ops t := by
  have hcore : ∀ {p n}, t.heap p = some n → t.core p = some n.toRun := fun hp => core_of_heap hp
  refine ⟨?_, ?_, ?_, ?_, h.sampled_iff, h.linked.nodup, ?_, h.orphans, ?_, hstand, h.unambiguous⟩
  · intro id
    obtain ⟨b, hb⟩ := is_resident_defined h id
    have := hres id
    unfold Resident at this
    rw [hb] at this ⊢
    congr 1
    rw [Bool.eq_iff_iff, ← this]
    simp
  · intro id p q n m i j hp hi hq hj
    exact h.shape.unique (hcore hp) hi (hcore hq) hj
  · intro id p i
    rw [h.shape.index]
    constructor
    · rintro ⟨r, hr, hi⟩
      obtain ⟨n, hn, rfl⟩ := core_some hr
      exact ⟨n, hn, hi⟩
    · rintro ⟨n, hn, hi⟩
      exact ⟨n.toRun, hcore hn, hi⟩
  · intro p n hp
    exact h.shape.flags p n.toRun (hcore hp)
  · intro i p hi
    have hpos := (h.linked p i).2 hi
    obtain ⟨n, hn, hite⟩ := Option.bind_eq_some_iff.1 hpos
    split_ifs at hite with hge
    cases hite
    exact ⟨n, hn, by omega⟩
  · intro id p i hi
    obtain ⟨r, hr, hb⟩ := (h.shape.index id p i).1 hi
    obtain ⟨n, hn, rfl⟩ := core_some hr
    have hne : recordedPath (recorded ops) id ≠ [] := by
      intro hnil
      have := h.shape.path_last hr hb
      rw [hnil] at this
      cases this
    obtain ⟨s, hs, k, hk, -⟩ := recordedPath_spec hne
    obtain ⟨q, m, x, hq, hm, -, -, hpaths⟩ := h.shape.parent p n.toRun hr (h.shape.not_root hr hb)
    obtain ⟨mq, hmq, rfl⟩ := core_some hm
    refine ⟨⟨s, hs, mem_of_getElem? hk⟩, fun u hu j hj => ?_⟩
    refine ⟨p, i, n, q, _, hi, hn, hq, node_path h _ q mq hmq le_rfl, ?_⟩
    rw [← hunique.recorded hu j id hj]
    exact hpaths i id hb

/-- Every interleaving of the calls over prefix-unique sequences runs, and leaves the tree a
refinement of the marks and the recorded paths: right after a sequence is recorded, each of its
ids is on its path, orphans included. -/
theorem prefixRadixTree_refines (ops : List Op) (hunique : PrefixUnique (recorded ops)) :
    ∃ t, runs step PrefixRadixTree.init ops = some t ∧ Refines ops t := by
  obtain ⟨t, hrun, hg, hres, hstand⟩ := run_spec (R := recordedPath (recorded ops)) ops (by
    intro ids hids
    apply hunique.recorded
    unfold recorded
    rw [mem_filterMap]
    exact ⟨_, hids, rfl⟩)
  exact ⟨t, hrun, hg.refines hunique hres hstand⟩

/-- Eviction of 1 prunes the path `[1, 2]`, 2 then becomes an orphan, and the second recording
takes it back, resident. -/
theorem prefixRadixTree_refines_orphan :
    let ops : List Op := [.add_sequence [1, 2], .mark_resident 1, .mark_evicted 1, .mark_resident 2]
    (∃ t, runs step PrefixRadixTree.init ops = some t ∧ Refines ops t ∧ t.index_ 2 = none ∧ 2 ∈ t.orphans_) ∧
    ∃ t, runs step PrefixRadixTree.init (ops ++ [.add_sequence [1, 2]]) = some t ∧
      Refines (ops ++ [.add_sequence [1, 2]]) t ∧ BlockPath t 2 [1, 2] ∧ t.is_resident 2 = some true ∧
      2 ∉ t.orphans_ := by
  intro ops
  have hunique : ∀ ops' : List Op, recorded ops' = [[1, 2]] ∨ recorded ops' = [[1, 2], [1, 2]] →
      PrefixUnique (recorded ops') := by
    intro ops' h
    refine PrefixUnique.of_same (show ([1, 2] : List ObjId).Nodup by decide) ?_
    rcases h with h | h <;> simp [h]
  obtain ⟨t, ht, href⟩ := prefixRadixTree_refines ops (hunique _ (by decide))
  obtain ⟨u, hu, huref⟩ := prefixRadixTree_refines (ops ++ [.add_sequence [1, 2]]) (hunique _ (by decide))
  have hgone : t.index_ 2 = none ∧ 2 ∈ t.orphans_ := by
    have hrun : (runs step PrefixRadixTree.init ops).all
        (fun t => t.index_ 2 == none && decide (2 ∈ t.orphans_)) = true := by decide
    rw [ht] at hrun
    simpa using hrun
  have hback := huref.standing 2 (by decide)
  obtain ⟨⟨p, i⟩, hidx⟩ := Option.ne_none_iff_exists'.1 hback
  refine ⟨⟨t, ht, href, hgone⟩, u, hu, huref, ?_, huref.resident 2, fun hmem => hback (huref.orphans 2 hmem)⟩
  exact (huref.path 2 p i hidx).2 [1, 2] (by decide) 1 rfl

end CacheSim.Radix
