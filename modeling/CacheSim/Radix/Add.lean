import CacheSim.Radix.Proofs

/-!
# Adding a path

`add_sequence` walks down from the root. Where the path leaves a node inside its run the node is
split; where it leaves the tree a new leaf takes the rest, with the orphans that belong there.
-/

namespace CacheSim.Radix

open Lib PrefixRadixTree List Option Function Finset

variable {R : ObjId → List ObjId} {t : PrefixRadixTree}

/-! ## New leaves -/

structure Adopted (p : Ptr) (l : List ObjId) (k : Nat) (pre : List Bool) (a b : Adoption) : Prop where
  resident : b.resident = pre ++ l.map (fun x => decide (x ∈ a.orphans_))
  n_resident : b.n_resident = b.resident.count true
  orphans : b.orphans_ = a.orphans_ \ l.toFinset
  ambiguous : b.n_ambiguous_ = a.n_ambiguous_
  old : ∀ x ∉ l, b.index_ x = a.index_ x
  new : ∀ i x, l[i]? = some x → b.index_ x = some (p, k + i)

theorem adopt_all (p : Ptr) (l : List ObjId) : ∀ (k : Nat) (a : Adoption) (pre : List Bool),
    a.resident = pre ++ List.replicate l.length false → pre.length = k → a.n_resident = pre.count true →
    l.Nodup → (∀ x ∈ l, a.index_ x = none) → Adopted p l k pre a ((l.zipIdx k).foldl (adopt p) a) := by
  induction l with
  | nil =>
    intro k a pre hres _ hcount _ _
    have hres' : a.resident = pre := by simpa using hres
    exact ⟨by simpa using hres', by simpa [hres'] using hcount, by simp, rfl, fun _ _ => rfl, by simp⟩
  | cons y l ih =>
    intro k a pre hres hk hcount hnodup hnew
    obtain ⟨hy, hnodup⟩ := nodup_cons.1 hnodup
    set a1 := adopt p a (y, k) with ha1
    have hstep : a1.index_ = update a.index_ y (some (p, k)) ∧ a1.n_ambiguous_ = a.n_ambiguous_ ∧
        a1.orphans_ = a.orphans_.erase y ∧
        a1.resident = (pre ++ [decide (y ∈ a.orphans_)]) ++ List.replicate l.length false ∧
        a1.n_resident = (pre ++ [decide (y ∈ a.orphans_)]).count true := by
      rw [ha1]
      unfold adopt
      rw [hnew y (by simp)]
      dsimp only
      split_ifs with hmem
      · refine ⟨rfl, rfl, rfl, ?_, ?_⟩
        · rw [hres, set_append_right _ _ (by omega), hk, Nat.sub_self, length_cons,
            replicate_succ, set_cons_zero]
          simp [hmem]
        · simp [hmem, hcount]
      · refine ⟨rfl, rfl, (erase_eq_of_notMem hmem).symm, ?_, ?_⟩
        · rw [hres, length_cons, replicate_succ]
          simp [hmem]
        · simp [hmem, hcount]
    obtain ⟨hidx, hamb, horph, hres1, hcount1⟩ := hstep
    have hold : ∀ x ∈ l, a1.index_ x = none := by
      intro x hx
      have hxy : x ≠ y := by
        rintro rfl
        exact hy hx
      rw [hidx, update_of_ne hxy]
      exact hnew x (by simp [hx])
    have hrest := ih (k + 1) a1 _ hres1 (by simp [hk]) hcount1 hnodup hold
    rw [zipIdx_cons, foldl_cons]
    refine ⟨?_, hrest.n_resident, ?_, hrest.ambiguous.trans hamb, ?_, ?_⟩
    · rw [hrest.resident, List.map_cons, append_assoc, singleton_append]
      congr 2
      apply map_congr_left
      intro x hx
      have hxy : x ≠ y := by
        rintro rfl
        exact hy hx
      simp [horph, hxy]
    · rw [hrest.orphans, horph, toFinset_cons]
      ext x
      simp only [mem_sdiff, mem_erase, mem_insert]
      tauto
    · intro x hx
      rw [List.mem_cons, not_or] at hx
      rw [hrest.old x hx.2, hidx, update_of_ne hx.1]
    · intro i x hi
      rcases i with _ | i
      · cases hi
        rw [hrest.old y hy, hidx, update_self]
        rfl
      · rw [hrest.new i x hi]
        congr 2
        omega

theorem Good.heap_next (h : Good R t) : t.heap t.next = none := by
  rcases hn : t.heap t.next with _ | n
  · rfl
  · exact absurd (h.shape.fresh _ _ (core_of_heap hn)) (Nat.lt_irrefl _)

structure Grown (t : PrefixRadixTree) (cur : Ptr) (l : List ObjId) (u : PrefixRadixTree) : Prop where
  core : ∃ leaf : Run, u.core = update t.core t.next (some leaf) ∧ leaf.blocks = l ∧
    leaf.resident = l.map (fun x => decide (x ∈ t.orphans_)) ∧ leaf.n_resident = leaf.resident.count true ∧
    leaf.parent = some cur ∧ leaf.children = ∅
  linked : Linked u
  wanted : Wanted ∅ u
  new : ∀ i x, l[i]? = some x → u.index_ x = some (t.next, i)
  old : ∀ x ∉ l, u.index_ x = t.index_ x
  orphans : u.orphans_ = t.orphans_ \ l.toFinset
  ambiguous : u.n_ambiguous_ = t.n_ambiguous_
  root : u.root_ = t.root_
  next : u.next = t.next + 1

variable {l : List ObjId}

theorem new_node_spec (h : Good R t) (cur : Ptr) (hnodup : l.Nodup) (hnew : ∀ x ∈ l, t.index_ x = none) :
    ∃ u, t.new_node cur l = some (u, t.next) ∧ Grown t cur l u := by
  have had := adopt_all t.next l 0
    { index_ := t.index_, orphans_ := t.orphans_, n_ambiguous_ := t.n_ambiguous_
      resident := List.replicate l.length false } [] rfl rfl rfl hnodup hnew
  set a := l.zipIdx.foldl (adopt t.next) { index_ := t.index_, orphans_ := t.orphans_
                                           n_ambiguous_ := t.n_ambiguous_
                                           resident := List.replicate l.length false } with ha
  set leaf : Node := { blocks := l, resident := a.resident, n_resident := a.n_resident, parent := some cur } with hleaf
  set t0 : PrefixRadixTree := { t with
    heap := update t.heap t.next (some leaf)
    next := t.next + 1
    index_ := a.index_
    orphans_ := a.orphans_
    n_ambiguous_ := a.n_ambiguous_ } with ht0
  have hheap0 : t0.heap t.next = some leaf := update_self ..
  have hother0 : ∀ q ≠ t.next, t0.heap q = t.heap q := fun q hq => update_of_ne hq ..
  have hl0 : Linked t0 := by
    have hpos : samplePos t0 = samplePos t := by
      funext q
      rcases eq_or_ne q t.next with rfl | hq
      · rw [samplePos_eq hheap0]
        simp [samplePos, h.heap_next, hleaf]
      · unfold samplePos
        rw [hother0 q hq]
    unfold Linked
    rw [hpos]
    exact h.linked
  have hw0 : Wanted (insert t.next ∅) t0 := by
    intro q m hq hX
    have hqn : q ≠ t.next := by simpa using hX
    rw [hother0 q hqn] at hq
    exact h.wanted q m hq (by simp)
  obtain ⟨u, href, hcore, hsame, hl, hw⟩ := refresh_sampleable_spec hheap0 hl0 hw0
  refine ⟨u, ?_, ⟨leaf.toRun, ?_, rfl, had.resident, had.n_resident, rfl, rfl⟩, hl, hw, ?_, ?_, ?_, ?_, hsame.root, hsame.next⟩
  · unfold new_node
    simp only
    rw [show ({ t with
      heap := update t.heap t.next (some leaf)
      next := t.next + 1
      index_ := a.index_
      orphans_ := a.orphans_
      n_ambiguous_ := a.n_ambiguous_ } : PrefixRadixTree).refresh_sampleable t.next = some u from href]
    rfl
  · rw [hcore]
    funext q
    rcases eq_or_ne q t.next with rfl | hqn
    · rw [update_self, core_of_heap hheap0]
    · rw [update_of_ne hqn]
      unfold PrefixRadixTree.core
      rw [hother0 q hqn]
  · intro i x hi
    have hindex := had.new i x hi
    rw [Nat.zero_add] at hindex
    rw [hsame.index]
    exact hindex
  · intro x hx
    rw [hsame.index]
    exact had.old x hx
  · exact hsame.orphans.trans had.orphans
  · exact hsame.ambiguous.trans had.ambiguous

theorem attach_spec (h : Good R t) {cur : Ptr} {c : Node} (hc : t.heap cur = some c)
    {first : ObjId} (hfirst : l.head? = some first) (hfree : c.children.lookup first = none)
    (hnodup : l.Nodup) (hnew : ∀ x ∈ l, t.index_ x = none)
    (hpath : ∀ i y, l[i]? = some y → R y = endPath R c.toRun ++ l.take (i + 1)) :
    ∃ t1 p c1, t.new_node cur l = some (t1, p) ∧ t1.heap cur = some c1 ∧
      Good R (t1.set cur { c1 with children := c1.children.insert first p }) ∧
      (∀ y, Resident (t1.set cur { c1 with children := c1.children.insert first p }) y ↔ Resident t y) ∧
      ∀ y, t1.index_ y = none → t.index_ y = none ∧ y ∉ l := by
  have hcore := core_of_heap hc
  have hcn : cur ≠ t.next := h.shape.ne_next hcore
  obtain ⟨t1, hnode, hgrown⟩ := new_node_spec h cur hnodup hnew
  obtain ⟨leaf, hcore1, hblocks, hres, hnres, hpar, hkids⟩ := hgrown.core
  obtain ⟨c1, hc1, hrun1⟩ : ∃ c1, t1.heap cur = some c1 ∧ c1.toRun = c.toRun := by
    apply core_some
    rw [hcore1, update_of_ne hcn]
    exact hcore
  have hkids1 : c1.children = c.children := congrArg Run.children hrun1
  set t2 := t1.set cur { c1 with children := c1.children.insert first t.next } with ht2
  have hheap2 : t2.heap cur = some { c1 with children := c1.children.insert first t.next } := update_self ..
  have hother2 : ∀ q ≠ cur, t2.heap q = t1.heap q := fun q hq => update_of_ne hq ..
  have hcore2 : t2.core = update (update t.core t.next (some leaf)) cur
      (some { c.toRun with children := c.children.insert first t.next }) := by
    funext q
    rcases eq_or_ne q cur with rfl | hq
    · rw [update_self, core_of_heap hheap2, ← hrun1, hkids1]
    · rw [update_of_ne hq, ← hcore1]
      unfold PrefixRadixTree.core
      rw [hother2 q hq]
  have hflags : leaf.resident.length = leaf.blocks.length ∧ leaf.n_resident = leaf.resident.count true := by
    refine ⟨?_, hnres⟩
    rw [hres, hblocks, length_map]
  refine ⟨t1, t.next, c1, hnode, hc1, ⟨?_, hgrown.linked.set hc1 rfl, ?_, ?_, hgrown.ambiguous.trans h.unambiguous⟩, ?_, ?_⟩
  · have hroot : t2.root_ = t.root_ := hgrown.root
    have hnext : t2.next = t.next + 1 := hgrown.next
    subst hblocks
    rw [hcore2, hroot, hnext]
    exact h.shape.add_leaf hcore hpar hkids hfirst hflags hfree hpath hnew hgrown.old hgrown.new
  · intro q m hq hX
    rcases eq_or_ne q cur with rfl | hqc
    · rw [hheap2] at hq
      cases hq
      exact hgrown.wanted q c1 hc1 hX
    · rw [hother2 q hqc] at hq
      exact hgrown.wanted q m hq hX
  · intro x hx
    have hx' : x ∈ t1.orphans_ := hx
    rw [hgrown.orphans, mem_sdiff, List.mem_toFinset] at hx'
    exact (hgrown.old x hx'.2).trans (h.orphans x hx'.1)
  · intro y
    by_cases hy : y ∈ l
    · obtain ⟨i, hi⟩ := mem_iff_getElem?.1 hy
      have hcorenext : t2.core t.next = some leaf := by
        rw [hcore2, update_of_ne hcn.symm, update_self]
      have hindex : t2.index_ y = some (t.next, i) := hgrown.new i y hi
      rw [resident_of_some hindex hcorenext, resident_of_none (hnew y hy), hres]
      simp [hi]
    · apply resident_congr
      · exact hgrown.old y hy
      · show y ∈ t1.orphans_ ↔ _
        rw [hgrown.orphans]
        simp [hy]
      · intro q i hq
        obtain ⟨r, hr, -⟩ := (h.shape.index y q i).1 hq
        rw [hcore2]
        rcases eq_or_ne q cur with rfl | hqc
        · rw [update_self, hcore]
          rfl
        · rw [update_of_ne hqc, update_of_ne (h.shape.ne_next hr)]
  · intro y hnone
    have hy : y ∉ l := by
      intro hmem
      obtain ⟨i, hi⟩ := mem_iff_getElem?.1 hmem
      cases hnone.symm.trans (hgrown.new i y hi)
    exact ⟨(hgrown.old y hy).symm.trans hnone, hy⟩

/-! ## Splitting -/

theorem set_parents_spec (s : Ptr) (kids : List (Sigma fun _ : ObjId => Ptr)) : ∀ t : PrefixRadixTree,
    (∀ kv ∈ kids, ∃ n, t.heap kv.2 = some n) →
    ∃ heap, kids.foldlM (set_parent s) t = some { t with heap := heap } ∧
      ∀ q, heap q = (t.heap q).map fun n => if q ∈ kids.map (·.2) then { n with parent := some s } else n := by
  induction kids with
  | nil =>
    intro t _
    exact ⟨t.heap, rfl, by simp⟩
  | cons kv kids ih =>
    intro t hall
    obtain ⟨n, hn⟩ := hall kv (by simp)
    set t1 := t.set kv.2 { n with parent := some s } with ht1
    have hheap1 : ∀ q, t1.heap q = (t.heap q).map fun m => if q = kv.2 then { m with parent := some s } else m := by
      intro q
      rcases eq_or_ne q kv.2 with rfl | hq
      · rw [hn]
        simp [ht1, PrefixRadixTree.set]
      · have : t1.heap q = t.heap q := update_of_ne hq ..
        rw [this]
        simp [hq]
    obtain ⟨heap, hfold, hheap⟩ := ih t1 (by
      intro kv' hkv'
      obtain ⟨m, hm⟩ := hall kv' (by simp [hkv'])
      rw [hheap1, hm]
      exact ⟨_, rfl⟩)
    refine ⟨heap, ?_, ?_⟩
    · rw [foldlM_cons]
      simp only [set_parent, hn]
      exact hfold
    · intro q
      rw [hheap, hheap1, Option.map_map]
      congr 1
      funext m
      split_ifs <;> simp_all

theorem rehome_all {p s : Ptr} (l : List ObjId) : ∀ (k : Nat) (index_ : ObjId → Option (Ptr × Nat)),
    l.Nodup → (∀ x ∈ l, ∃ i, index_ x = some (p, i)) →
    (∀ i x, l[i]? = some x → (l.zipIdx k).foldl (rehome p s) index_ x = some (s, k + i)) ∧
      ∀ x ∉ l, (l.zipIdx k).foldl (rehome p s) index_ x = index_ x := by
  induction l with
  | nil =>
    intro k index_ _ _
    exact ⟨by simp, fun _ _ => rfl⟩
  | cons y l ih =>
    intro k index_ hnodup hall
    obtain ⟨hy, hnodup⟩ := nodup_cons.1 hnodup
    have hstep : rehome p s index_ (y, k) = update index_ y (some (s, k)) := by
      obtain ⟨i, hi⟩ := hall y (by simp)
      unfold rehome
      simp [hi]
    obtain ⟨hmoved, hstay⟩ := ih (k + 1) (update index_ y (some (s, k))) hnodup (by
      intro x hx
      have hxy : x ≠ y := by
        rintro rfl
        exact hy hx
      rw [update_of_ne hxy]
      exact hall x (by simp [hx]))
    rw [zipIdx_cons, foldl_cons, hstep]
    constructor
    · intro i x hi
      rcases i with _ | i
      · cases hi
        rw [hstay y hy, update_self]
        rfl
      · rw [hmoved i x hi]
        congr 2
        omega
    · intro x hx
      rw [List.mem_cons, not_or] at hx
      rw [hstay x hx.2, update_of_ne hx.1]

theorem mem_kids {n : Node} {q : Ptr} : q ∈ n.children.entries.map (·.2) ↔ ∃ x, n.children.lookup x = some q := by
  rw [List.mem_map]
  constructor
  · rintro ⟨⟨x, c⟩, hkv, rfl⟩
    exact ⟨x, AList.mem_lookup_iff.2 hkv⟩
  · rintro ⟨x, hx⟩
    exact ⟨⟨x, q⟩, AList.mem_lookup_iff.1 hx, rfl⟩

theorem Good.kid_apart (h : Good R t) {p : Ptr} {n : Node} (hp : t.heap p = some n) {q : Ptr} {x : ObjId}
    (hx : n.children.lookup x = some q) : ∃ m, t.heap q = some m ∧ q ≠ p ∧ q ≠ t.next := by
  obtain ⟨r, hr, -, hqp, hqs, -⟩ := h.shape.child_apart (core_of_heap hp) hx
  obtain ⟨m, hm, -⟩ := core_some hr
  exact ⟨m, hm, hqp, hqs⟩

/-- The tree with the node in two halves, before their places in the pool are looked at again. -/
structure Halved (t : PrefixRadixTree) (p : Ptr) (n : Node) (k : Nat) (first : ObjId) (u : PrefixRadixTree) : Prop where
  head : u.heap p = some { n with
    blocks := n.blocks.take k
    resident := n.resident.take k
    n_resident := (n.resident.take k).count true
    children := AList.insert first t.next ∅ }
  suffix : u.heap t.next = some {
    parent := some p
    blocks := n.blocks.drop k
    resident := n.resident.drop k
    n_resident := (n.resident.drop k).count true
    children := n.children }
  others : ∀ q ≠ p, q ≠ t.next → u.heap q =
    (t.heap q).map fun m => if q ∈ n.children.entries.map (·.2) then { m with parent := some t.next } else m
  moved : ∀ i x, (n.blocks.drop k)[i]? = some x → u.index_ x = some (t.next, i)
  stay : ∀ x ∉ n.blocks.drop k, u.index_ x = t.index_ x
  same : u = { t with heap := u.heap, next := t.next + 1, index_ := u.index_ }

section

variable {p : Ptr} {n : Node} {k : Nat} {first : ObjId} {u : PrefixRadixTree}

theorem split_node_eq (h : Good R t) (hp : t.heap p = some n) (hk : 0 < k) (hlen : k < n.blocks.length) :
    ∃ first u, (n.blocks.drop k).head? = some first ∧ Halved t p n k first u ∧
      t.split_node p k = (u.refresh_sampleable p).bind fun u => u.refresh_sampleable t.next := by
  have hcore := core_of_heap hp
  have hpn : p ≠ t.next := h.shape.ne_next hcore
  obtain ⟨first, hfirst⟩ : ∃ first, (n.blocks.drop k).head? = some first := by
    rw [head?_drop]
    exact ⟨_, getElem?_eq_getElem hlen⟩
  set s := t.next with hs
  set suffix : Node := { parent := some p, blocks := n.blocks.drop k, resident := n.resident.drop k
                         n_resident := (n.resident.drop k).count true, children := n.children }
  set t1 : PrefixRadixTree := { t.set s suffix with next := s + 1 } with ht1
  have hother1 : ∀ q ≠ s, t1.heap q = t.heap q := fun q hq => update_of_ne hq ..
  obtain ⟨heap, hfold, hheap⟩ := set_parents_spec s n.children.entries t1 (by
    rintro ⟨x, q⟩ hkv
    obtain ⟨m, hm, -, hqs⟩ := h.kid_apart hp (AList.mem_lookup_iff.2 hkv)
    exact ⟨m, (hother1 q hqs).trans hm⟩)
  have hblocks : ∀ x ∈ n.blocks.drop k, ∃ i, t.index_ x = some (p, i) := by
    intro x hx
    obtain ⟨i, hi⟩ := mem_iff_getElem?.1 (mem_of_mem_drop hx)
    exact ⟨i, (h.shape.index x p i).2 ⟨n.toRun, hcore, hi⟩⟩
  have hnodup : (n.blocks.drop k).Nodup := (h.shape.nodup hcore).sublist (drop_sublist _ _)
  obtain ⟨hmoved, hstay⟩ := rehome_all (n.blocks.drop k) 0 t.index_ hnodup hblocks
  set u : PrefixRadixTree := { t with
    heap := update heap p (some { n with
      blocks := n.blocks.take k
      resident := n.resident.take k
      n_resident := (n.resident.take k).count true
      children := AList.insert first s ∅ })
    next := s + 1
    index_ := (n.blocks.drop k).zipIdx.foldl (rehome p s) t.index_ }
  refine ⟨first, u, hfirst, ⟨update_self .., ?_, ?_, ?_, hstay, rfl⟩, ?_⟩
  · have hnot : s ∉ n.children.entries.map (·.2) := by
      rw [mem_kids]
      rintro ⟨x, hx⟩
      obtain ⟨m, -, -, hne⟩ := h.kid_apart hp hx
      exact hne rfl
    show update heap p (some _) s = _
    rw [update_of_ne hpn.symm, hheap]
    simp [ht1, PrefixRadixTree.set, hnot, suffix]
  · intro q hqp hqs
    show update heap p (some _) q = _
    rw [update_of_ne hqp, hheap, hother1 q hqs]
  · intro i x hi
    have hnew := hmoved i x hi
    rwa [Nat.zero_add] at hnew
  · have hcond : ¬ (k ≤ 0 ∨ n.blocks.length ≤ k) := by omega
    unfold split_node
    simp only [hp, bind_eq_bind, bind_some, hcond]
    rw [show n.children.entries.foldlM (set_parent t.next) { t.set t.next suffix with next := t.next + 1 } =
      some { t1 with heap := heap } from hfold]
    simp only [hfirst]
    rfl

theorem Halved.splits (hu : Halved t p n k first u) :
    Shape.Splits t.next p n.toRun k first t.core u.core t.index_ u.index_ := by
  refine ⟨⟨_, core_of_heap hu.head, rfl, rfl, rfl, rfl, rfl⟩, ⟨_, core_of_heap hu.suffix, rfl, rfl, rfl, rfl, rfl⟩,
    ?_, ?_, hu.moved, hu.stay⟩
  · intro q m x hqp hqs hm hx
    obtain ⟨mq, hmq, rfl⟩ := core_some hm
    unfold core
    rw [hu.others q hqp hqs, hmq]
    simp [mem_kids.2 ⟨x, hx⟩]
  · intro q hqp hqs hnone
    have hnot : q ∉ n.children.entries.map (·.2) := by
      rw [mem_kids]
      rintro ⟨x, hx⟩
      exact hnone x hx
    unfold core
    rw [hu.others q hqp hqs]
    simp [hnot]

section

variable (h : Good R t)
include h

theorem Halved.linked (hp : t.heap p = some n) (hu : Halved t p n k first u) : Linked u := by
  have hpos : samplePos u = samplePos t := by
    funext q
    rcases eq_or_ne q p with rfl | hqp
    · rw [samplePos_eq hu.head, samplePos_eq hp]
    rcases eq_or_ne q t.next with rfl | hqs
    · rw [samplePos_eq hu.suffix]
      simp [samplePos, h.heap_next]
    · unfold samplePos
      rw [hu.others q hqp hqs, bind_map]
      congr 1
      funext m
      simp only [comp_apply]
      split_ifs <;> rfl
  unfold Linked
  rw [hpos, hu.same]
  exact h.linked

theorem Halved.wanted (hu : Halved t p n k first u) : Wanted (insert p (insert t.next ∅)) u := by
  intro q m hq hX
  simp only [mem_insert, notMem_empty, or_false, not_or] at hX
  rw [hu.others q hX.1 hX.2] at hq
  obtain ⟨m0, hm0, rfl⟩ := map_eq_some_iff.1 hq
  have hwant := h.wanted q m0 hm0 (by simp)
  split_ifs <;> exact hwant

theorem Halved.resident (hp : t.heap p = some n) (hu : Halved t p n k first u) (y : ObjId) :
    Resident u y ↔ Resident t y := by
  have hcore := core_of_heap hp
  by_cases hy : y ∈ n.blocks.drop k
  · obtain ⟨i, hi⟩ := mem_iff_getElem?.1 hy
    have hold : t.index_ y = some (p, k + i) := by
      rw [h.shape.index]
      exact ⟨n.toRun, hcore, by rwa [getElem?_drop] at hi⟩
    rw [resident_of_some (hu.moved i y hi) (core_of_heap hu.suffix), resident_of_some hold hcore]
    rw [getElem?_drop]
  · apply resident_congr
    · exact hu.stay y hy
    · rw [hu.same]
    · intro q i hq
      obtain ⟨r, hr, hri⟩ := (h.shape.index y q i).1 hq
      rcases eq_or_ne q p with rfl | hqp
      · rw [hcore] at hr
        cases hr
        have hik : i < k := by
          by_contra hge
          exact hy ((h.shape.mem_drop_iff hcore hri).2 (by omega))
        rw [core_of_heap hu.head, hcore]
        show (n.resident.take k)[i]? = n.resident[i]?
        rw [getElem?_take_of_lt hik]
      · unfold core
        rw [hu.others q hqp (h.shape.ne_next hr), Option.map_map, bind_map, bind_map]
        split_ifs <;> rfl

theorem split_node_spec (hp : t.heap p = some n) (hk : 0 < k) (hlen : k < n.blocks.length) :
    ∃ t', t.split_node p k = some t' ∧ Good R t' ∧ (∀ y, Resident t' y ↔ Resident t y) ∧
      (∃ r, t'.core p = some r ∧ r.blocks = n.blocks.take k) ∧ ∀ y, t'.index_ y = none → t.index_ y = none := by
  have hcore := core_of_heap hp
  obtain ⟨first, u, hfirst, hu, hsplit⟩ := split_node_eq h hp hk hlen
  obtain ⟨t1, href1, hcore1, hsame1, hl1, hw1⟩ := refresh_sampleable_spec hu.head (hu.linked h hp) (hu.wanted h)
  obtain ⟨s1, hs1, -⟩ : ∃ s1, t1.heap t.next = some s1 ∧ s1.toRun = _ := by
    apply core_some
    rw [hcore1]
    exact core_of_heap hu.suffix
  obtain ⟨t2, href2, hcore2, hsame2, hl2, hw2⟩ := refresh_sampleable_spec hs1 hl1 hw1
  have hsame := hsame1.trans hsame2
  have hcore' : t2.core = u.core := hcore2.trans hcore1
  refine ⟨t2, ?_, ⟨?_, hl2, hw2, ?_, ?_⟩, fun y => ?_, ?_, fun y hnone => ?_⟩
  · rw [hsplit, href1]
    exact href2
  · have hroot : u.root_ = t.root_ := by rw [hu.same]
    have hnext : u.next = t.next + 1 := by rw [hu.same]
    rw [hsame.root, hsame.next, hsame.index, hcore', hroot, hnext]
    exact h.shape.split hcore hk hlen hfirst hu.splits
  · have horphans : u.orphans_ = t.orphans_ := by rw [hu.same]
    rw [hsame.orphans, hsame.index, horphans]
    intro x hx
    have hnone := h.orphans x hx
    have hnot : x ∉ n.blocks.drop k := by
      intro hmem
      obtain ⟨i, hi⟩ := mem_iff_getElem?.1 (mem_of_mem_drop hmem)
      cases hnone.symm.trans ((h.shape.index x p i).2 ⟨n.toRun, hcore, hi⟩)
    exact (hu.stay x hnot).trans hnone
  · rw [hsame.ambiguous, hu.same]
    exact h.unambiguous
  · rw [← hu.resident h hp y]
    exact resident_congr (by rw [hsame.index]) (by rw [hsame.orphans]) fun q i _ => by rw [hcore']
  · rw [hcore']
    exact ⟨_, core_of_heap hu.head, rfl⟩
  · rw [hsame.index] at hnone
    have hy : y ∉ n.blocks.drop k := by
      intro hmem
      obtain ⟨i, hi⟩ := mem_iff_getElem?.1 hmem
      cases hnone.symm.trans (hu.moved i y hi)
    exact (hu.stay y hy).symm.trans hnone

end

end

/-! ## The walk -/

theorem common_spec (as bs : List ObjId) : common as bs ≤ as.length ∧ common as bs ≤ bs.length ∧
    ∀ i < common as bs, as[i]? = bs[i]? := by
  induction as generalizing bs with
  | nil => simp [common]
  | cons a as ih =>
    rcases bs with _ | ⟨b, bs⟩
    · simp [common]
    · unfold common
      split_ifs with hab
      · obtain ⟨h1, h2, h3⟩ := ih bs
        refine ⟨by simpa using h1, by simpa using h2, fun i hi => ?_⟩
        rcases i with _ | i
        · simp [hab]
        · simpa using h3 i (by omega)
      · simp

def Recorded (R : ObjId → List ObjId) (ids : List ObjId) : Prop :=
  ∀ i x, ids[i]? = some x → R x = ids.take (i + 1)

variable {ids : List ObjId}

theorem Recorded.nodup (h : Recorded R ids) : ids.Nodup := by
  rw [nodup_iff_injective_getElem]
  intro i j hij
  have hval : ids[i.1] = ids[j.1] := hij
  have h1 := h i.1 _ (getElem?_eq_getElem i.2)
  have h2 := h j.1 _ (getElem?_eq_getElem j.2)
  rw [hval, h2] at h1
  have := congrArg List.length h1
  rw [length_take, length_take] at this
  exact Fin.ext (by omega)

structure Walking (R : ObjId → List ObjId) (t : PrefixRadixTree) (ids : List ObjId) (w : Walk) : Prop where
  good : Good R w.t
  resident : ∀ y, Resident w.t y ↔ Resident t y
  index : ∀ y, w.t.index_ y = none → t.index_ y = none ∧ y ∉ ids.take w.i ∧ (w.done = true → y ∉ ids)
  cur : w.done = false → ∃ r, w.t.core w.cur = some r ∧ endPath R r = ids.take w.i

theorem add_step_spec (hids : Recorded R ids) {w : Walk} (h : Walking R t ids w)
    (hgo : w.done = false) (hlt : w.i < ids.length) :
    ∃ w', add_step ids w = some w' ∧ Walking R t ids w' ∧ (w'.done = true ∨ w'.done = false ∧ w.i < w'.i) := by
  obtain ⟨r, hr, hend⟩ := h.cur hgo
  obtain ⟨c, hc, rfl⟩ := core_some hr
  set first := ids[w.i] with hfirst
  have hget : ids[w.i]? = some first := getElem?_eq_getElem hlt
  have hhead : (ids.drop w.i).head? = some first := by rw [head?_drop, hget]
  unfold add_step
  simp only [hc, bind_eq_bind, bind_some, hget]
  rcases hchild : c.children.lookup first with _ | child
  · -- none of the blocks that are left is in the tree, or `cur` had a child there
    have hnew : ∀ x ∈ ids.drop w.i, w.t.index_ x = none := by
      intro x hx
      obtain ⟨j, hj⟩ := mem_iff_getElem?.1 hx
      rw [getElem?_drop] at hj
      rcases hidx : w.t.index_ x with _ | ⟨p, i⟩
      · rfl
      · exfalso
        have hpre : endPath R c.toRun ++ [first] <+: R x := by
          rw [hend, hids _ x hj]
          have htake : ids.take w.i ++ [first] = ids.take (w.i + 1) := by
            rw [take_add_one, hget]
            rfl
          rw [htake]
          exact take_prefix_take_left (by omega)
        obtain ⟨d, hd⟩ := h.good.shape.find_child hr _ x p i le_rfl hidx hpre
        rw [hchild] at hd
        cases hd
    have hpath : ∀ i y, (ids.drop w.i)[i]? = some y →
        R y = endPath R c.toRun ++ (ids.drop w.i).take (i + 1) := by
      intro i y hi
      rw [getElem?_drop] at hi
      rw [hend, hids _ y hi, show w.i + i + 1 = w.i + (i + 1) from by omega, take_add]
    obtain ⟨t1, p, c1, hnode, hc1, hgood, hres, hidx⟩ := attach_spec h.good hc hhead hchild
      (hids.nodup.sublist (drop_sublist _ _)) hnew hpath
    refine ⟨{ w with t := t1.set w.cur { c1 with children := c1.children.insert first p }, done := true }, ?_,
      ⟨hgood, fun y => (hres y).trans (h.resident y), fun y hnone => ?_, by simp⟩, Or.inl rfl⟩
    · simp only [hnode, bind_some, hc1, Option.pure_def]
    · obtain ⟨hold, hleft⟩ := hidx y hnone
      obtain ⟨hnone', htaken, -⟩ := h.index y hold
      refine ⟨hnone', htaken, fun _ hmem => ?_⟩
      rw [← take_append_drop w.i ids, mem_append] at hmem
      exact hmem.elim htaken hleft
  · obtain ⟨rc, hrc, hroot, hpar, hfirst'⟩ := h.good.shape.child w.cur c.toRun first child hr hchild
    obtain ⟨n, hn, rfl⟩ := core_some hrc
    obtain ⟨q, m, x, hq, hm, -, -, hpath⟩ := h.good.shape.parent child n.toRun hrc hroot
    rw [hpar] at hq
    cases hq
    rw [hr] at hm
    cases hm
    obtain ⟨hle1, -, hagree⟩ := common_spec n.blocks (ids.drop w.i)
    set j := common n.blocks (ids.drop w.i) with hj
    have hpos : 0 < j := by
      rcases hb : n.blocks with _ | ⟨b, bs⟩
      · rw [hb] at hfirst'
        cases hfirst'
      · rcases hd : ids.drop w.i with _ | ⟨d, ds⟩
        · rw [hd] at hhead
          cases hhead
        · rw [hb] at hfirst'
          rw [hd] at hhead
          cases hfirst'
          cases hhead
          rw [hj, hb, hd]
          simp [common]
    -- the path of the part that is kept
    have hkept : ∀ r : Run, r.blocks = n.blocks.take j → endPath R r = ids.take (w.i + j) := by
      intro r hr
      obtain ⟨z, hz⟩ : ∃ z, n.blocks[j - 1]? = some z := ⟨_, getElem?_eq_getElem (by omega)⟩
      have hlast : r.blocks.getLast? = some z := by
        rw [hr, getLast?_eq_getElem?, length_take, Nat.min_eq_left hle1,
          getElem?_take_of_lt (by omega)]
        exact hz
      rw [Shape.endPath_last hlast]
      have := hagree (j - 1) (by omega)
      rw [hz, getElem?_drop] at this
      rw [hids _ z this.symm]
      congr 1
      omega
    have htaken : ∀ y, w.t.index_ y = none → t.index_ y = none ∧ y ∉ ids.take (w.i + j) ∧ (w.done = true → y ∉ ids) := by
      intro y hnone
      obtain ⟨hnone', hbefore, hdone⟩ := h.index y hnone
      refine ⟨hnone', ?_, hdone⟩
      rw [take_add, mem_append, not_or]
      refine ⟨hbefore, fun hmem => ?_⟩
      obtain ⟨k, hk⟩ := mem_iff_getElem?.1 hmem
      have hkj : k < j := by
        have hlen := (List.getElem?_eq_some_iff.1 hk).1
        rw [length_take] at hlen
        omega
      rw [getElem?_take_of_lt hkj, ← hagree k hkj] at hk
      cases hnone.symm.trans ((h.good.shape.index y child k).2 ⟨n.toRun, hrc, hk⟩)
    simp only [hn, bind_some]
    rw [← hj]
    split_ifs with hsplit
    · obtain ⟨t', ht', hgood, hres, ⟨r', hr', hb'⟩, hidx⟩ := split_node_spec h.good hn hpos hsplit
      refine ⟨{ w with t := t', cur := child, i := w.i + j }, by simp only [ht', bind_some, Option.pure_def],
        ⟨hgood, fun y => (hres y).trans (h.resident y), fun y hnone => htaken y (hidx y hnone),
          fun _ => ⟨r', hr', hkept r' hb'⟩⟩, Or.inr ⟨hgo, ?_⟩⟩
      show w.i < w.i + j
      omega
    · refine ⟨{ w with cur := child, i := w.i + j }, rfl, ⟨h.good, h.resident, htaken, fun _ => ⟨n.toRun, hrc, ?_⟩⟩,
        Or.inr ⟨hgo, ?_⟩⟩
      · apply hkept
        rw [take_of_length_le (by omega)]
      · show w.i < w.i + j
        omega

theorem add_sequence_spec (h : Good R t) (hids : Recorded R ids) :
    ∃ t', t.add_sequence ids = some t' ∧ Good R t' ∧ (∀ y, Resident t' y ↔ Resident t y) ∧
      ∀ y, t'.index_ y = none → t.index_ y = none ∧ y ∉ ids := by
  let μ : Walk → Nat := fun w => if w.done then 0 else ids.length - w.i
  have hbody : ∀ w, Walking R t ids w → (!w.done && decide (w.i < ids.length)) = true →
      ∃ w', add_step ids w = some w' ∧ Walking R t ids w' ∧ μ w' < μ w := by
    intro w hw hcond
    rw [Bool.and_eq_true, Bool.not_eq_true', decide_eq_true_eq] at hcond
    obtain ⟨w', hstep, hw', hcase⟩ := add_step_spec hids hw hcond.1 hcond.2
    refine ⟨w', hstep, hw', ?_⟩
    rcases hcase with hdone | ⟨hgo, hi⟩
    · simp only [μ, hdone, hcond.1, if_true, Bool.false_eq_true, if_false]
      omega
    · simp only [μ, hgo, hcond.1, Bool.false_eq_true, if_false]
      omega
  have hstart : Walking R t ids { t := t, cur := t.root_ } := by
    refine ⟨h, fun _ => Iff.rfl, fun y hnone => ⟨hnone, by simp, by simp⟩, fun _ => ?_⟩
    obtain ⟨r, hr, hnil⟩ := h.shape.rooted
    exact ⟨r, hr, by rw [Shape.endPath_nil hnil]; rfl⟩
  obtain ⟨w, hloop, hw, hend⟩ := whileLoop_total (Walking R t ids) μ hbody ids.length _ hstart (by simp [μ])
  refine ⟨w.t, by simp [add_sequence, hloop], hw.good, hw.resident, fun y hnone => ?_⟩
  obtain ⟨hnone', htaken, hdone⟩ := hw.index y hnone
  refine ⟨hnone', fun hmem => ?_⟩
  rw [Bool.and_eq_false_iff, Bool.not_eq_false', decide_eq_false_iff_not] at hend
  rcases hend with hgone | hall
  · exact hdone hgone hmem
  · rw [take_of_length_le (not_lt.1 hall)] at htaken
    exact htaken hmem

end CacheSim.Radix
