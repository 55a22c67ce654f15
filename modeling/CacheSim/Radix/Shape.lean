import CacheSim.Radix.Model
import CacheSim.Lib.SwapList

/-!
# The shape of the tree

Each id has one recorded path, `R id`, which ends in the id.
-/

namespace CacheSim.Radix

open Lib List AList Function Nat

def endPath (R : ObjId → List ObjId) (n : Run) : List ObjId :=
  match n.blocks.getLast? with
  | none => []
  | some x => R x

structure Shape (R : ObjId → List ObjId) (root next : Ptr) (core : Ptr → Option Run)
    (index_ : ObjId → Option (Ptr × Nat)) : Prop where
  rooted : ∃ n, core root = some n ∧ n.blocks = []
  fresh : ∀ p n, core p = some n → p < next
  flags : ∀ p n, core p = some n →
    n.resident.length = n.blocks.length ∧ n.n_resident = n.resident.count true
  parent : ∀ p n, core p = some n → p ≠ root → ∃ q m x, n.parent = some q ∧ core q = some m ∧
    n.blocks.head? = some x ∧ m.children.lookup x = some p ∧
    ∀ i y, n.blocks[i]? = some y → R y = endPath R m ++ n.blocks.take (i + 1)
  child : ∀ p n x c, core p = some n → n.children.lookup x = some c →
    ∃ m, core c = some m ∧ c ≠ root ∧ m.parent = some p ∧ m.blocks.head? = some x
  index : ∀ x p i, index_ x = some (p, i) ↔ ∃ n, core p = some n ∧ n.blocks[i]? = some x

namespace Shape

variable {R : ObjId → List ObjId} {root next : Ptr} {core : Ptr → Option Run}
  {index_ : ObjId → Option (Ptr × Nat)} {p q : Ptr} {n m : Run} {i : Nat} {x : ObjId}

theorem blocks_ne_nil (h : Shape R root next core index_) (hp : core p = some n) (hr : p ≠ root) : n.blocks ≠ [] := by
  obtain ⟨q, m, x, -, -, hx, -⟩ := h.parent p n hp hr
  rintro hnil
  rw [hnil] at hx
  cases hx

theorem root_of_nil (h : Shape R root next core index_) (hp : core p = some n) (hnil : n.blocks = []) : p = root := by
  by_contra hr
  exact h.blocks_ne_nil hp hr hnil

section

variable (h : Shape R root next core index_)
include h

section

variable (hp : core p = some n)
include hp

theorem not_root (hx : n.blocks[i]? = some x) : p ≠ root := by
  rintro rfl
  obtain ⟨m, hm, hnil⟩ := h.rooted
  rw [hp] at hm
  cases hm
  rw [hnil] at hx
  cases hx

theorem unique {j : Nat} (hx : n.blocks[i]? = some x) (hq : core q = some m) (hy : m.blocks[j]? = some x) :
    p = q ∧ i = j := by
  have h1 := (h.index x p i).2 ⟨n, hp, hx⟩
  have h2 := (h.index x q j).2 ⟨m, hq, hy⟩
  rw [h1] at h2
  cases h2
  exact ⟨rfl, rfl⟩

theorem nodup : n.blocks.Nodup := by
  rw [nodup_iff_injective_getElem]
  intro i j hij
  have hval : n.blocks[i.1] = n.blocks[j.1] := hij
  have hi := getElem?_eq_getElem i.2
  have hj := getElem?_eq_getElem j.2
  rw [← hval] at hj
  exact Fin.ext (h.unique hp hi hp hj).2

theorem path_last (hx : n.blocks[i]? = some x) : (R x).getLast? = some x := by
  obtain ⟨q, m, y, -, -, -, -, hpath⟩ := h.parent p n hp (h.not_root hp hx)
  have htake : n.blocks.take (i + 1) = n.blocks.take i ++ [x] := by
    rw [take_add_one, hx]
    rfl
  rw [hpath i x hx, htake, ← append_assoc, getLast?_concat]

end

end

theorem endPath_congr {m' : Run} (hb : m'.blocks = m.blocks) : endPath R m' = endPath R m := by
  unfold endPath
  rw [hb]

theorem endPath_nil (hnil : n.blocks = []) : endPath R n = [] := by
  unfold endPath
  rw [hnil]
  rfl

theorem endPath_last (hx : n.blocks.getLast? = some x) : endPath R n = R x := by
  unfold endPath
  rw [hx]

theorem getLast?_getElem? (hx : n.blocks.getLast? = some x) : n.blocks[n.blocks.length - 1]? = some x := by
  rw [← hx, getLast?_eq_getElem?]

section

variable (h : Shape R root next core index_)
include h

theorem endPath_getLast? (hp : core p = some n) : (endPath R n).getLast? = n.blocks.getLast? := by
  rcases hz : n.blocks.getLast? with _ | z
  · rw [endPath_nil (getLast?_eq_none_iff.1 hz)]
    rfl
  · rw [endPath_last hz]
    exact h.path_last hp (getLast?_getElem? hz)

theorem endPath_inj (hp : core p = some n) (hq : core q = some m) (heq : endPath R n = endPath R m) : p = q := by
  have hsame : n.blocks.getLast? = m.blocks.getLast? := by
    rw [← h.endPath_getLast? hp, heq, h.endPath_getLast? hq]
  rcases hz : n.blocks.getLast? with _ | z
  · rw [h.root_of_nil hp (getLast?_eq_none_iff.1 hz),
      h.root_of_nil hq (getLast?_eq_none_iff.1 (hsame ▸ hz))]
  · exact (h.unique hp (getLast?_getElem? hz) hq (getLast?_getElem? (hsame ▸ hz))).1

/-- If the path of an indexed block goes on beyond the node `cur`, then `cur` has the child there:
the nodes on the way to a block are never deleted before it. -/
theorem find_child {cur : Ptr} {c : Run} (hcur : core cur = some c)
    {y : ObjId} : ∀ (k : Nat) (x : ObjId) (p : Ptr) (i : Nat), (R x).length ≤ k → index_ x = some (p, i) →
      endPath R c ++ [y] <+: R x → ∃ d, c.children.lookup y = some d := by
  intro k
  induction k with
  | zero =>
    intro x p i hk hx hpre
    have := hpre.length_le
    simp at this
    omega
  | succ k ih =>
    intro x p i hk hx hpre
    obtain ⟨n, hp, hi⟩ := (h.index x p i).1 hx
    obtain ⟨q, m, z, -, hm, hz, hchild, hpath⟩ := h.parent p n hp (h.not_root hp hi)
    have hRx := hpath i x hi
    have hilt := (List.getElem?_eq_some_iff.1 hi).1
    rcases lt_or_ge (endPath R c).length (endPath R m).length with hlt | hge
    · -- `cur` lies above the parent: go on from the parent's last block
      rcases hlast : m.blocks.getLast? with _ | w
      · rw [endPath_nil (getLast?_eq_none_iff.1 hlast)] at hlt
        simp at hlt
      · have hend := endPath_last (R := R) hlast
        have hpre' : endPath R c ++ [y] <+: R w := by
          rw [← hend]
          apply prefix_of_prefix_length_le hpre
          · rw [hRx]
            exact prefix_append _ _
          · rw [length_append, length_singleton]
            omega
        apply ih w q (m.blocks.length - 1) _ ((h.index w q _).2 ⟨m, hm, getLast?_getElem? hlast⟩) hpre'
        have : (R x).length = (endPath R m).length + (i + 1) := by
          rw [hRx, length_append, length_take]
          omega
        rw [← hend]
        omega
    · -- `cur` lies between the parent and the block
      obtain ⟨tail, htail⟩ : endPath R m <+: endPath R c := by
        apply prefix_of_prefix_length_le _ ((prefix_append _ _).trans hpre) hge
        rw [hRx]
        exact prefix_append _ _
      have hrest : tail ++ [y] <+: n.blocks.take (i + 1) := by
        rw [hRx, ← htail, append_assoc] at hpre
        exact (prefix_append_right_inj _).1 hpre
      rcases eq_nil_or_concat tail with rfl | ⟨tail, w, rfl⟩
      · -- it is the parent
        have hcq : cur = q := h.endPath_inj hcur hm (by rw [← htail, append_nil])
        subst hcq
        rw [hcur] at hm
        cases hm
        have hy : n.blocks.head? = some y := by
          have := prefix_iff_getElem?.1 hrest 0 (by simp)
          rw [getElem?_take_of_lt (by omega)] at this
          rw [head?_eq_getElem?]
          exact this
        rw [hy] at hz
        cases hz
        exact ⟨p, hchild⟩
      · -- or it would end inside the node of the block
        have hw : n.blocks[tail.length]? = some w := by
          have hlen := hrest.length_le
          simp only [length_append, length_take, length_singleton, concat_eq_append] at hlen
          have := prefix_iff_getElem?.1 hrest tail.length (by simp)
          rw [getElem?_take_of_lt (by omega)] at this
          simpa using this
        have hcw : c.blocks.getLast? = some w := by
          rw [← h.endPath_getLast? hcur, ← htail, concat_eq_append, ← append_assoc,
            getLast?_concat]
        obtain ⟨rfl, hpos⟩ := h.unique hcur (getLast?_getElem? hcw) hp hw
        rw [hcur] at hp
        cases hp
        have hlen := hrest.length_le
        simp only [length_append, length_take, length_singleton, concat_eq_append] at hlen
        omega

theorem parent_ne (hp : core p = some n) (hr : p ≠ root) (hq : n.parent = some q) : q ≠ p := by
  rintro rfl
  obtain ⟨q', m', x, hq', hm', -, -, hpath⟩ := h.parent q n hp hr
  rw [hq] at hq'
  cases hq'
  rw [hp] at hm'
  cases hm'
  obtain ⟨z, hz⟩ := Option.ne_none_iff_exists'.1
    (fun hnone => h.blocks_ne_nil hp hr (getLast?_eq_none_iff.1 hnone))
  have hpos := length_pos_iff.2 (h.blocks_ne_nil hp hr)
  have hself := congrArg List.length (hpath _ z (getLast?_getElem? hz))
  rw [← endPath_last (R := R) hz, length_append, length_take] at hself
  omega

theorem congr {core' : Ptr → Option Run}
    (hsame : ∀ q, (core' q).map (fun n => (n.blocks, n.parent, n.children)) =
      (core q).map (fun n => (n.blocks, n.parent, n.children)))
    (hflags : ∀ p n, core' p = some n →
      n.resident.length = n.blocks.length ∧ n.n_resident = n.resident.count true) :
    Shape R root next core' index_ := by
  have hdown : ∀ q n', core' q = some n' → ∃ n, core q = some n ∧ n.blocks = n'.blocks ∧
      n.parent = n'.parent ∧ n.children = n'.children := by
    intro q n' hq
    have := hsame q
    rw [hq, Option.map_some] at this
    obtain ⟨n, hn, heq⟩ := Option.map_eq_some_iff.1 this.symm
    simp only [Prod.mk.injEq] at heq
    exact ⟨n, hn, heq.1, heq.2.1, heq.2.2⟩
  have hup : ∀ q n, core q = some n → ∃ n', core' q = some n' ∧ n'.blocks = n.blocks ∧
      n'.parent = n.parent ∧ n'.children = n.children := by
    intro q n hq
    have := hsame q
    rw [hq, Option.map_some] at this
    obtain ⟨n', hn', heq⟩ := Option.map_eq_some_iff.1 this
    simp only [Prod.mk.injEq] at heq
    exact ⟨n', hn', heq.1, heq.2.1, heq.2.2⟩
  refine ⟨?_, ?_, hflags, ?_, ?_, ?_⟩
  · obtain ⟨n, hn, hnil⟩ := h.rooted
    obtain ⟨n', hn', hb, -⟩ := hup root n hn
    exact ⟨n', hn', hb.trans hnil⟩
  · intro p n' hp
    obtain ⟨n, hn, -⟩ := hdown p n' hp
    exact h.fresh p n hn
  · intro p n' hp hr
    obtain ⟨n, hn, hb, hpar, -⟩ := hdown p n' hp
    obtain ⟨q, m, x, hq, hm, hx, hc, hpath⟩ := h.parent p n hn hr
    obtain ⟨m', hm', hmb, -, hmc⟩ := hup q m hm
    refine ⟨q, m', x, hpar ▸ hq, hm', hb ▸ hx, hmc ▸ hc, ?_⟩
    rw [endPath_congr hmb, ← hb]
    exact hpath
  · intro p n' x c hp hc
    obtain ⟨n, hn, -, -, hch⟩ := hdown p n' hp
    obtain ⟨m, hm, hr, hpar, hx⟩ := h.child p n x c hn (hch ▸ hc)
    obtain ⟨m', hm', hb, hpar', -⟩ := hup c m hm
    exact ⟨m', hm', hr, hpar'.trans hpar, hb ▸ hx⟩
  · intro x p i
    rw [h.index]
    constructor
    · rintro ⟨n, hn, hx⟩
      obtain ⟨n', hn', hb, -⟩ := hup p n hn
      exact ⟨n', hn', hb ▸ hx⟩
    · rintro ⟨n', hn', hx⟩
      obtain ⟨n, hn, hb, -⟩ := hdown p n' hn'
      exact ⟨n, hn, hb ▸ hx⟩

end

/-! ## A new leaf -/

def added (core : Ptr → Option Run) (next p : Ptr) (leaf n : Run) (first : ObjId) : Ptr → Option Run :=
  update (update core next (some leaf)) p (some { n with children := n.children.insert first next })

variable {leaf : Run} {first : ObjId}

/-- An old node keeps everything but that `p` has one more child. -/
theorem added_up (leaf : Run) (hp : core p = some n) (hfree : n.children.lookup first = none) {q : Ptr} {m : Run} (hqn : q ≠ next)
    (hq : core q = some m) : ∃ m', added core next p leaf n first q = some m' ∧ m'.blocks = m.blocks ∧
      m'.parent = m.parent ∧ m'.resident = m.resident ∧ m'.n_resident = m.n_resident ∧
      ∀ x d, m.children.lookup x = some d → m'.children.lookup x = some d := by
  rcases eq_or_ne q p with rfl | hqp
  · rw [hp] at hq
    cases hq
    refine ⟨_, update_self .., rfl, rfl, rfl, rfl, fun x d hd => ?_⟩
    have hne : x ≠ first := by
      rintro rfl
      rw [hfree] at hd
      cases hd
    rw [lookup_insert_ne hne]
    exact hd
  · refine ⟨m, ?_, rfl, rfl, rfl, rfl, fun _ _ hd => hd⟩
    rw [added, update_of_ne hqp, update_of_ne hqn]
    exact hq

theorem added_down (hp : core p = some n) {q : Ptr} {m' : Run} (hq : added core next p leaf n first q = some m') :
    (q = next ∧ m' = leaf) ∨ ∃ m, core q = some m ∧ m'.blocks = m.blocks ∧ m'.parent = m.parent ∧
      m'.resident = m.resident ∧ m'.n_resident = m.n_resident ∧
      ∀ x d, m'.children.lookup x = some d → m.children.lookup x = some d ∨ (q = p ∧ x = first ∧ d = next) := by
  unfold added at hq
  rcases eq_or_ne q p with rfl | hqp
  · rw [update_self] at hq
    cases hq
    refine Or.inr ⟨n, hp, rfl, rfl, rfl, rfl, fun x d hd => ?_⟩
    rcases eq_or_ne x first with rfl | hne
    · rw [lookup_insert] at hd
      cases hd
      exact Or.inr ⟨rfl, rfl, rfl⟩
    · rw [lookup_insert_ne hne] at hd
      exact Or.inl hd
  · rw [update_of_ne hqp] at hq
    rcases eq_or_ne q next with rfl | hqn
    · rw [update_self] at hq
      cases hq
      exact Or.inl ⟨rfl, rfl⟩
    · rw [update_of_ne hqn] at hq
      exact Or.inr ⟨m', hq, rfl, rfl, rfl, rfl, fun _ _ hd => Or.inl hd⟩

theorem add_leaf (h : Shape R root next core index_) {index' : ObjId → Option (Ptr × Nat)}
    (hp : core p = some n) (hpar : leaf.parent = some p)
    (hkids : leaf.children = ∅) (hfirst : leaf.blocks.head? = some first)
    (hflags : leaf.resident.length = leaf.blocks.length ∧ leaf.n_resident = leaf.resident.count true)
    (hfree : n.children.lookup first = none)
    (hpath : ∀ i y, leaf.blocks[i]? = some y → R y = endPath R n ++ leaf.blocks.take (i + 1))
    (hnew : ∀ x ∈ leaf.blocks, index_ x = none) (hold : ∀ x ∉ leaf.blocks, index' x = index_ x)
    (hindex : ∀ i x, leaf.blocks[i]? = some x → index' x = some (next, i)) :
    Shape R root (next + 1) (added core next p leaf n first) index' := by
  have hpn : p ≠ next := Nat.ne_of_lt (h.fresh p n hp)
  have hlt : ∀ q m, core q = some m → q ≠ next := fun q m hq => Nat.ne_of_lt (h.fresh q m hq)
  have hnext : added core next p leaf n first next = some leaf := by
    rw [added, update_of_ne hpn.symm, update_self]
  have hup : ∀ q m, core q = some m → _ := fun q m hq => added_up leaf hp hfree (hlt q m hq) hq
  refine ⟨?_, ?_, ?_, ?_, ?_, ?_⟩
  · obtain ⟨m, hm, hnil⟩ := h.rooted
    obtain ⟨m', hm', hb, -⟩ := hup root m hm
    exact ⟨m', hm', hb.trans hnil⟩
  · intro q m' hq
    rcases added_down hp hq with ⟨rfl, -⟩ | ⟨m, hm, -⟩
    · exact lt_succ_self _
    · exact lt_succ_of_lt (h.fresh q m hm)
  · intro q m' hq
    rcases added_down hp hq with ⟨rfl, rfl⟩ | ⟨m, hm, hb, -, hres, hnres, -⟩
    · exact hflags
    · rw [hb, hres, hnres]
      exact h.flags q m hm
  · intro q m' hq hr
    rcases added_down hp hq with ⟨rfl, rfl⟩ | ⟨m, hm, hb, hmp, -⟩
    · exact ⟨p, _, first, hpar, update_self .., hfirst, lookup_insert _, hpath⟩
    · obtain ⟨q0, m0, x, hq0, hm0, hx, hc, hpath0⟩ := h.parent q m hm hr
      obtain ⟨m1, hm1, hb1, -, -, -, hkeep⟩ := hup q0 m0 hm0
      refine ⟨q0, m1, x, hmp.trans hq0, hm1, hb ▸ hx, hkeep x q hc, ?_⟩
      rw [endPath_congr hb1, hb]
      exact hpath0
  · intro q m' x c hq hc
    rcases added_down hp hq with ⟨rfl, rfl⟩ | ⟨m, hm, -, -, -, -, hkids'⟩
    · rw [hkids] at hc
      cases hc
    · rcases hkids' x c hc with hc | ⟨rfl, rfl, rfl⟩
      · obtain ⟨m0, hm0, hr, hpar0, hx⟩ := h.child q m x c hm hc
        obtain ⟨m1, hm1, hb1, hpar1, -⟩ := hup c m0 hm0
        exact ⟨m1, hm1, hr, hpar1.trans hpar0, hb1 ▸ hx⟩
      · refine ⟨leaf, hnext, ?_, hpar, hfirst⟩
        rintro rfl
        obtain ⟨m0, hm0, -⟩ := h.rooted
        exact hlt _ _ hm0 rfl
  · intro x q i
    rcases em (x ∈ leaf.blocks) with hx | hx
    · obtain ⟨j, hj⟩ := mem_iff_getElem?.1 hx
      rw [hindex j x hj]
      constructor
      · rintro ⟨⟩
        exact ⟨leaf, hnext, hj⟩
      · rintro ⟨m', hm', hi⟩
        rcases added_down hp hm' with ⟨rfl, rfl⟩ | ⟨m, hm, hb, -⟩
        · have := hindex i x hi
          rw [hindex j x hj] at this
          exact this
        · have := (h.index x q i).2 ⟨m, hm, hb ▸ hi⟩
          rw [hnew x hx] at this
          cases this
    · rw [hold x hx, h.index]
      constructor
      · rintro ⟨m, hm, hi⟩
        obtain ⟨m', hm', hb, -⟩ := hup q m hm
        exact ⟨m', hm', hb ▸ hi⟩
      · rintro ⟨m', hm', hi⟩
        rcases added_down hp hm' with ⟨rfl, rfl⟩ | ⟨m, hm, hb, -⟩
        · exact absurd (mem_of_getElem? hi) hx
        · exact ⟨m, hm, hb ▸ hi⟩

/-! ## Splitting a node -/

/-- What `split_node` makes of the heap: `p` keeps its first `k` blocks, the new node `next` takes
the others with the children. -/
structure Splits (next p : Ptr) (n : Run) (k : Nat) (first : ObjId) (core core' : Ptr → Option Run)
    (index_ index' : ObjId → Option (Ptr × Nat)) : Prop where
  head : ∃ n', core' p = some n' ∧ n'.blocks = n.blocks.take k ∧ n'.resident = n.resident.take k ∧
    n'.n_resident = (n.resident.take k).count true ∧ n'.parent = n.parent ∧
    n'.children = AList.insert first next ∅
  suffix : ∃ s, core' next = some s ∧ s.blocks = n.blocks.drop k ∧ s.resident = n.resident.drop k ∧
    s.n_resident = (n.resident.drop k).count true ∧ s.parent = some p ∧ s.children = n.children
  kids : ∀ q m x, q ≠ p → q ≠ next → core q = some m → n.children.lookup x = some q →
    core' q = some { m with parent := some next }
  others : ∀ q ≠ p, q ≠ next → (∀ x, n.children.lookup x ≠ some q) → core' q = core q
  moved : ∀ i x, (n.blocks.drop k)[i]? = some x → index' x = some (next, i)
  stay : ∀ x ∉ n.blocks.drop k, index' x = index_ x

section

variable {k : Nat} {first : ObjId} {core' : Ptr → Option Run} {index' : ObjId → Option (Ptr × Nat)} {m' : Run}

theorem Splits.up (hs : Splits next p n k first core core' index_ index') (hqp : q ≠ p) (hqn : q ≠ next)
    (hq : core q = some m) : ∃ m', core' q = some m' ∧ m'.blocks = m.blocks ∧ m'.children = m.children ∧
      m'.resident = m.resident ∧ m'.n_resident = m.n_resident := by
  rcases em (∃ x, n.children.lookup x = some q) with ⟨x, hx⟩ | hkid
  · exact ⟨_, hs.kids q m x hqp hqn hq hx, rfl, rfl, rfl, rfl⟩
  · exact ⟨m, (hs.others q hqp hqn (fun x hx => hkid ⟨x, hx⟩)).trans hq, rfl, rfl, rfl, rfl⟩

section

variable (h : Shape R root next core index_)
include h

theorem ne_next (hq : core q = some m) : q ≠ next :=
  Nat.ne_of_lt (h.fresh q m hq)

theorem root_ne_next : root ≠ next := by
  obtain ⟨m, hm, -⟩ := h.rooted
  exact h.ne_next hm

theorem child_apart (hp : core p = some n)
    (hx : n.children.lookup x = some q) :
    ∃ m, core q = some m ∧ q ≠ root ∧ q ≠ p ∧ q ≠ next ∧ m.parent = some p ∧ m.blocks.head? = some x := by
  obtain ⟨m, hm, hqr, hpar, hhead⟩ := h.child p n x q hp hx
  refine ⟨m, hm, hqr, ?_, h.ne_next hm, hpar, hhead⟩
  rintro rfl
  exact h.parent_ne hm hqr hpar rfl

end

theorem Splits.down (hs : Splits next p n k first core core' index_ index') (h : Shape R root next core index_)
    (hp : core p = some n) (hqp : q ≠ p) (hqn : q ≠ next) (hq : core' q = some m') :
    ∃ m, core q = some m ∧ m'.blocks = m.blocks ∧ m'.children = m.children ∧
      m'.resident = m.resident ∧ m'.n_resident = m.n_resident ∧
      ((∃ x, n.children.lookup x = some q) ∧ m'.parent = some next ∨
        (∀ x, n.children.lookup x ≠ some q) ∧ m'.parent = m.parent) := by
  rcases em (∃ x, n.children.lookup x = some q) with ⟨x, hx⟩ | hnone
  · obtain ⟨m, hm, -⟩ := h.child_apart hp hx
    have hkid := hs.kids q m x hqp hqn hm hx
    rw [hq] at hkid
    cases hkid
    exact ⟨m, hm, rfl, rfl, rfl, rfl, Or.inl ⟨⟨x, hx⟩, rfl⟩⟩
  · have hnot : ∀ x, n.children.lookup x ≠ some q := fun x hx => hnone ⟨x, hx⟩
    have hm := (hs.others q hqp hqn hnot).symm.trans hq
    exact ⟨m', hm, rfl, rfl, rfl, rfl, Or.inr ⟨hnot, rfl⟩⟩

theorem endPath_drop (hlen : k < n.blocks.length) {n2 : Run} (hb : n2.blocks = n.blocks.drop k) :
    endPath R n2 = endPath R n := by
  unfold endPath
  rw [hb, getLast?_drop, if_neg (by omega)]

theorem endPath_take {l : List ObjId} (hpath : ∀ i y, n.blocks[i]? = some y → R y = l ++ n.blocks.take (i + 1)) (hk : 0 < k)
    (hlen : k < n.blocks.length) {n1 : Run} (hb : n1.blocks = n.blocks.take k) : endPath R n1 = l ++ n.blocks.take k := by
  obtain ⟨z, hz⟩ : ∃ z, n.blocks[k - 1]? = some z := ⟨_, getElem?_eq_getElem (by omega)⟩
  have hlast : n1.blocks.getLast? = some z := by
    rw [hb, getLast?_eq_getElem?, length_take, min_eq_left hlen.le, getElem?_take_of_lt (by omega)]
    exact hz
  rw [endPath_last hlast, hpath _ z hz, Nat.sub_add_cancel hk]

section

variable (h : Shape R root next core index_) (hp : core p = some n)
include h hp

theorem split_flags
    (hs : Splits next p n k first core core' index_ index') (hq : core' q = some m') :
    m'.resident.length = m'.blocks.length ∧ m'.n_resident = m'.resident.count true := by
  have hflags := h.flags p n hp
  rcases eq_or_ne q p with rfl | hqp
  · obtain ⟨n1, hn1, hb1, hres1, hnres1, -⟩ := hs.head
    rw [hn1] at hq
    cases hq
    rw [hb1, hres1, hnres1, length_take, length_take, hflags.1]
    exact ⟨rfl, rfl⟩
  · rcases eq_or_ne q next with rfl | hqn
    · obtain ⟨n2, hn2, hb2, hres2, hnres2, -⟩ := hs.suffix
      rw [hn2] at hq
      cases hq
      rw [hb2, hres2, hnres2, length_drop, length_drop, hflags.1]
      exact ⟨rfl, rfl⟩
    · obtain ⟨m, hm, hb, -, hres, hnres, -⟩ := hs.down h hp hqp hqn hq
      rw [hb, hres, hnres]
      exact h.flags q m hm

theorem split_parent (hk : 0 < k) (hlen : k < n.blocks.length)
    (hfirst : (n.blocks.drop k).head? = some first) (hs : Splits next p n k first core core' index_ index')
    (hq : core' q = some m') (hqr : q ≠ root) :
    ∃ u v x, m'.parent = some u ∧ core' u = some v ∧ m'.blocks.head? = some x ∧ v.children.lookup x = some q ∧
      ∀ i y, m'.blocks[i]? = some y → R y = endPath R v ++ m'.blocks.take (i + 1) := by
  have hpr : p ≠ root := h.not_root hp (getElem?_eq_getElem hlen)
  obtain ⟨q0, m0, x0, hq0, hm0, hx0, hc0, hpath⟩ := h.parent p n hp hpr
  obtain ⟨n1, hn1, hb1, -, -, hpar1, hch1⟩ := hs.head
  obtain ⟨n2, hn2, hb2, -, -, hpar2, hch2⟩ := hs.suffix
  rcases eq_or_ne q p with rfl | hqp
  · -- the first half stays where the node was
    rw [hn1] at hq
    cases hq
    obtain ⟨m', hm', hb, hch, -⟩ := hs.up (h.parent_ne hp hpr hq0) (h.ne_next hm0) hm0
    refine ⟨q0, m', x0, hpar1.trans hq0, hm', ?_, hch ▸ hc0, ?_⟩
    · rw [hb1, head?_take, if_neg (by omega)]
      exact hx0
    · intro i y hy
      rw [hb1] at hy ⊢
      have hi := (List.getElem?_eq_some_iff.1 hy).1
      rw [length_take] at hi
      rw [getElem?_take_of_lt (by omega)] at hy
      rw [endPath_congr hb, hpath i y hy, take_take, min_eq_left (by omega)]
  rcases eq_or_ne q next with rfl | hqn
  · -- the second half hangs below it
    rw [hn2] at hq
    cases hq
    refine ⟨p, n1, first, hpar2, hn1, hb2 ▸ hfirst, by rw [hch1, lookup_insert], ?_⟩
    intro i y hy
    rw [hb2, getElem?_drop] at hy
    rw [endPath_take hpath hk hlen hb1, hb2, hpath _ y hy, append_assoc]
    rw [show k + i + 1 = k + (i + 1) from by omega, take_add]
  obtain ⟨m, hm, hb, hch, -, -, hcase⟩ := hs.down h hp hqp hqn hq
  obtain ⟨q1, m1, x1, hq1, hm1, hx1, hc1, hpath1⟩ := h.parent q m hm hqr
  rcases hcase with ⟨⟨x, hx⟩, hpar'⟩ | ⟨hnot, hpar'⟩
  · -- a child of the node hangs below the second half
    obtain ⟨m2, hm2, -, -, -, hpar2', -⟩ := h.child_apart hp hx
    rw [hm] at hm2
    cases hm2
    rw [hpar2'] at hq1
    cases hq1
    rw [hp] at hm1
    cases hm1
    refine ⟨next, n2, x1, hpar', hn2, hb ▸ hx1, hch2 ▸ hc1, ?_⟩
    rw [endPath_drop hlen hb2, hb]
    exact hpath1
  · have hq1p : q1 ≠ p := by
      rintro rfl
      rw [hp] at hm1
      cases hm1
      exact hnot x1 hc1
    obtain ⟨m1', hm1', hb1', hch1', -⟩ := hs.up hq1p (h.ne_next hm1) hm1
    refine ⟨q1, m1', x1, hpar'.trans hq1, hm1', hb ▸ hx1, hch1' ▸ hc1, ?_⟩
    rw [endPath_congr hb1', hb]
    exact hpath1

theorem split_child (hk : 0 < k)
    (hfirst : (n.blocks.drop k).head? = some first) (hs : Splits next p n k first core core' index_ index')
    {c : Ptr} (hq : core' q = some m') (hc : m'.children.lookup x = some c) :
    ∃ m, core' c = some m ∧ c ≠ root ∧ m.parent = some q ∧ m.blocks.head? = some x := by
  obtain ⟨n1, hn1, hb1, -, -, hpar1, hch1⟩ := hs.head
  obtain ⟨n2, hn2, hb2, -, -, hpar2, hch2⟩ := hs.suffix
  rcases eq_or_ne q p with rfl | hqp
  · rw [hn1] at hq
    cases hq
    rw [hch1] at hc
    rcases eq_or_ne x first with rfl | hx
    · rw [lookup_insert] at hc
      cases hc
      exact ⟨n2, hn2, h.root_ne_next.symm, hpar2, hb2 ▸ hfirst⟩
    · rw [lookup_insert_ne hx] at hc
      cases hc
  rcases eq_or_ne q next with rfl | hqn
  · rw [hn2] at hq
    cases hq
    rw [hch2] at hc
    obtain ⟨m, hm, hcr, hcp, hcn, -, hhead⟩ := h.child_apart hp hc
    exact ⟨_, hs.kids c m x hcp hcn hm hc, hcr, rfl, hhead⟩
  obtain ⟨m, hm, -, hch, -⟩ := hs.down h hp hqp hqn hq
  obtain ⟨mc, hmc, hcr, hcpar, hhead⟩ := h.child q m x c hm (hch ▸ hc)
  rcases eq_or_ne c p with rfl | hcp
  · rw [hp] at hmc
    cases hmc
    refine ⟨n1, hn1, hcr, hpar1.trans hcpar, ?_⟩
    rw [hb1, head?_take, if_neg (by omega)]
    exact hhead
  · have hnot : ∀ y, n.children.lookup y ≠ some c := by
      intro y hy
      obtain ⟨mc', hmc', -, -, -, hpar', -⟩ := h.child_apart hp hy
      rw [hmc] at hmc'
      cases hmc'
      rw [hcpar] at hpar'
      cases hpar'
      exact hqp rfl
    exact ⟨mc, (hs.others c hcp (h.ne_next hmc) hnot).trans hmc, hcr, hcpar, hhead⟩

theorem mem_drop_iff {i : Nat} (hi : n.blocks[i]? = some x) : x ∈ n.blocks.drop k ↔ k ≤ i := by
  constructor
  · intro hx
    obtain ⟨j, hj⟩ := mem_iff_getElem?.1 hx
    rw [getElem?_drop] at hj
    have heq := (h.unique hp hi hp hj).2
    omega
  · intro hle
    rw [mem_iff_getElem?]
    exact ⟨i - k, by rw [getElem?_drop, Nat.add_sub_cancel' hle]; exact hi⟩

theorem split_index
    (hs : Splits next p n k first core core' index_ index') (x : ObjId) (q : Ptr) (i : Nat) :
    index' x = some (q, i) ↔ ∃ m, core' q = some m ∧ m.blocks[i]? = some x := by
  obtain ⟨n1, hn1, hb1, -⟩ := hs.head
  obtain ⟨n2, hn2, hb2, -⟩ := hs.suffix
  have hhead : n1.blocks[i]? = some x ↔ n.blocks[i]? = some x ∧ x ∉ n.blocks.drop k := by
    rw [hb1, getElem?_take]
    split_ifs with hik
    · exact (and_iff_left_of_imp fun hi => mt (h.mem_drop_iff hp hi).1 (by omega)).symm
    · exact iff_of_false (by simp) fun ⟨hi, hx⟩ => hx ((h.mem_drop_iff hp hi).2 (by omega))
  rcases eq_or_ne q p with rfl | hqp
  · simp only [hn1, Option.some.injEq, exists_eq_left', hhead]
    by_cases hx : x ∈ n.blocks.drop k
    · obtain ⟨j, hj⟩ := mem_iff_getElem?.1 hx
      have hne := h.ne_next hp
      simp [hs.moved j x hj, hx, hne.symm]
    · rw [hs.stay x hx, h.index]
      simp [hp, hx]
  rcases eq_or_ne q next with rfl | hqn
  · simp only [hn2, Option.some.injEq, exists_eq_left', hb2]
    constructor
    · intro hindex
      by_cases hx : x ∈ n.blocks.drop k
      · obtain ⟨j, hj⟩ := mem_iff_getElem?.1 hx
        rw [hs.moved j x hj] at hindex
        cases hindex
        exact hj
      · rw [hs.stay x hx, h.index] at hindex
        obtain ⟨m, hm, -⟩ := hindex
        exact absurd rfl (h.ne_next hm)
    · exact hs.moved i x
  have hsame : (∃ m, core' q = some m ∧ m.blocks[i]? = some x) ↔ index_ x = some (q, i) := by
    rw [h.index]
    constructor
    · rintro ⟨m', hm', hi⟩
      obtain ⟨m, hm, hb, -⟩ := hs.down h hp hqp hqn hm'
      exact ⟨m, hm, hb ▸ hi⟩
    · rintro ⟨m, hm, hi⟩
      obtain ⟨m', hm', hb, -⟩ := hs.up hqp hqn hm
      exact ⟨m', hm', hb ▸ hi⟩
  rw [hsame]
  by_cases hx : x ∈ n.blocks.drop k
  · obtain ⟨j, hj⟩ := mem_iff_getElem?.1 hx
    have hold : index_ x = some (p, k + j) := (h.index x p _).2 ⟨n, hp, by rwa [getElem?_drop] at hj⟩
    simp [hs.moved j x hj, hold, hqp.symm, hqn.symm]
  · rw [hs.stay x hx]

theorem split (hk : 0 < k) (hlen : k < n.blocks.length)
    (hfirst : (n.blocks.drop k).head? = some first) (hs : Splits next p n k first core core' index_ index') :
    Shape R root (next + 1) core' index' where
  rooted := by
    have hpr : p ≠ root := h.not_root hp (getElem?_eq_getElem hlen)
    obtain ⟨m, hm, hnil⟩ := h.rooted
    obtain ⟨m', hm', hb, -⟩ := hs.up hpr.symm (h.ne_next hm) hm
    exact ⟨m', hm', hb.trans hnil⟩
  fresh := by
    intro q m' hq
    rcases eq_or_ne q p with rfl | hqp
    · exact lt_succ_of_lt (h.fresh q n hp)
    rcases eq_or_ne q next with rfl | hqn
    · exact lt_succ_self _
    obtain ⟨m, hm, -⟩ := hs.down h hp hqp hqn hq
    exact lt_succ_of_lt (h.fresh q m hm)
  flags _ _ hq := h.split_flags hp hs hq
  parent _ _ hq hqr := h.split_parent hp hk hlen hfirst hs hq hqr
  child _ _ _ _ hq hc := h.split_child hp hk hfirst hs hq hc
  index := h.split_index hp hs

end

end

section

variable (h : Shape R root next core index_) {r q p : Ptr} {n m k k' : Run} {first : ObjId} (hp : core p = some n)
  (hq : n.parent = some q) (hm : core q = some m) (hfirst : n.blocks.head? = some first)

def cut (core : Ptr → Option Run) (q p : Ptr) (m : Run) (first : ObjId) : Ptr → Option Run :=
  update (update core q (some { m with children := m.children.erase first })) p none

include h hp hq hm hfirst

theorem cut_up (hr : p ≠ root) (hrp : r ≠ p) (hk : core r = some k) : ∃ k', cut core q p m first r = some k' ∧
    k'.blocks = k.blocks ∧ k'.parent = k.parent ∧ ∀ x c, c ≠ p → k.children.lookup x = some c → k'.children.lookup x = some c := by
  unfold cut
  rw [update_of_ne hrp]
  rcases eq_or_ne r q with rfl | hrq
  · rw [hm] at hk
    cases hk
    refine ⟨_, update_self .., rfl, rfl, fun x c hc hx => ?_⟩
    have hne : x ≠ first := by
      rintro rfl
      obtain ⟨q', m', y, hq', hm', hy, hch, -⟩ := h.parent p n hp hr
      rw [hq] at hq'
      cases hq'
      rw [hm] at hm'
      cases hm'
      rw [hfirst] at hy
      cases hy
      rw [hx] at hch
      cases hch
      exact hc rfl
    rw [lookup_erase_ne hne]
    exact hx
  · exact ⟨k, by rw [update_of_ne hrq]; exact hk, rfl, rfl, fun _ _ _ hx => hx⟩

theorem cut_down (hk' : cut core q p m first r = some k') : r ≠ p ∧ ∃ k, core r = some k ∧
    k'.blocks = k.blocks ∧ k'.parent = k.parent ∧ k'.resident = k.resident ∧ k'.n_resident = k.n_resident ∧
    ∀ x c, k'.children.lookup x = some c → k.children.lookup x = some c ∧ c ≠ p := by
  unfold cut at hk'
  have hrp : r ≠ p := by
    rintro rfl
    rw [update_self] at hk'
    cases hk'
  rw [update_of_ne hrp] at hk'
  -- only the parent has the leaf for a child, under its first block
  have hnotp : ∀ k x, core r = some k → k.children.lookup x = some p → r = q ∧ x = first := by
    intro k x hk hx
    obtain ⟨n', hn', -, hpar, hhead⟩ := h.child r k x p hk hx
    rw [hp] at hn'
    cases hn'
    rw [hq] at hpar
    rw [hfirst] at hhead
    cases hpar
    cases hhead
    exact ⟨rfl, rfl⟩
  refine ⟨hrp, ?_⟩
  rcases eq_or_ne r q with rfl | hrq
  · rw [update_self] at hk'
    cases hk'
    refine ⟨m, hm, rfl, rfl, rfl, rfl, fun x c hx => ?_⟩
    rcases eq_or_ne x first with rfl | hne
    · rw [lookup_erase] at hx
      cases hx
    · rw [lookup_erase_ne hne] at hx
      refine ⟨hx, ?_⟩
      rintro rfl
      exact hne (hnotp m x hm hx).2
  · rw [update_of_ne hrq] at hk'
    refine ⟨k', hk', rfl, rfl, rfl, rfl, fun x c hx => ⟨hx, ?_⟩⟩
    rintro rfl
    exact hrq (hnotp k' x hk' hx).1

theorem cut_leaf {index' : ObjId → Option (Ptr × Nat)} (hr : p ≠ root) (hleaf : ∀ x, n.children.lookup x = none)
    (hindex : ∀ x, index' x = if x ∈ n.blocks then none else index_ x) :
    Shape R root next (cut core q p m first) index' := by
  have hup : ∀ r k, r ≠ p → core r = some k → _ := fun r k hrp hk => cut_up h hp hq hm hfirst hr hrp hk
  have hdown : ∀ r k', cut core q p m first r = some k' → _ := fun r k' hk' => cut_down h hp hq hm hfirst hk'
  refine ⟨?_, ?_, ?_, ?_, ?_, ?_⟩
  · obtain ⟨k, hk, hnil⟩ := h.rooted
    obtain ⟨k', hk', hb, -⟩ := hup root k hr.symm hk
    exact ⟨k', hk', hb.trans hnil⟩
  · intro r k' hk'
    obtain ⟨-, k, hk, -⟩ := hdown r k' hk'
    exact h.fresh r k hk
  · intro r k' hk'
    obtain ⟨-, k, hk, hb, -, hres, hnres, -⟩ := hdown r k' hk'
    rw [hb, hres, hnres]
    exact h.flags r k hk
  · intro r k' hk' hrr
    obtain ⟨hrp, k, hk, hb, hpar, -⟩ := hdown r k' hk'
    obtain ⟨u, v, x, hu, hv, hx, hc, hpath⟩ := h.parent r k hk hrr
    have hup' : u ≠ p := by
      rintro rfl
      rw [hp] at hv
      cases hv
      rw [hleaf x] at hc
      cases hc
    obtain ⟨v', hv', hvb, -, hkeep⟩ := hup u v hup' hv
    refine ⟨u, v', x, hpar.trans hu, hv', hb ▸ hx, hkeep x r hrp hc, ?_⟩
    rw [endPath_congr hvb, hb]
    exact hpath
  · intro r k' x c hk' hc
    obtain ⟨hrp, k, hk, -, -, -, -, hkids⟩ := hdown r k' hk'
    obtain ⟨hc', hcp⟩ := hkids x c hc
    obtain ⟨v, hv, hcr, hcpar, hx⟩ := h.child r k x c hk hc'
    obtain ⟨v', hv', hvb, hvp, -⟩ := hup c v hcp hv
    exact ⟨v', hv', hcr, hvp.trans hcpar, hvb ▸ hx⟩
  · intro x r i
    rw [hindex]
    split_ifs with hx
    · obtain ⟨j, hj⟩ := mem_iff_getElem?.1 hx
      refine ⟨by simp, ?_⟩
      rintro ⟨k', hk', hi⟩
      obtain ⟨hrp, k, hk, hb, -⟩ := hdown r k' hk'
      exact absurd (h.unique hk (hb ▸ hi) hp hj).1 hrp
    · rw [h.index]
      constructor
      · rintro ⟨k, hk, hi⟩
        have hrp : r ≠ p := by
          rintro rfl
          rw [hp] at hk
          cases hk
          exact hx (mem_of_getElem? hi)
        obtain ⟨k', hk', hb, -⟩ := hup r k hrp hk
        exact ⟨k', hk', hb ▸ hi⟩
      · rintro ⟨k', hk', hi⟩
        obtain ⟨-, k, hk, hb, -⟩ := hdown r k' hk'
        exact ⟨k, hk, hb ▸ hi⟩

end

end Shape

end CacheSim.Radix
