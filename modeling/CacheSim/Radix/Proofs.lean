import CacheSim.Radix.Samples

/-!
# What each call does to the tree
-/

namespace CacheSim.Radix

open Lib PrefixRadixTree List Option Function Finset

structure Good (R : ObjId → List ObjId) (t : PrefixRadixTree) : Prop where
  shape : Shape R t.root_ t.next t.core t.index_
  linked : Linked t
  wanted : Wanted ∅ t
  orphans : ∀ x ∈ t.orphans_, t.index_ x = none
  unambiguous : t.n_ambiguous_ = 0

variable {R : ObjId → List ObjId} {t : PrefixRadixTree} {p : Ptr} {n : Node}

theorem Good.sampled_iff (h : Good R t) (p : Ptr) : p ∈ t.sampleable_ ↔ ∃ n, t.heap p = some n ∧ 0 < n.n_resident := by
  rw [h.linked.mem_iff]
  constructor
  · rintro ⟨i, hi⟩
    obtain ⟨n, hn, hite⟩ := bind_eq_some_iff.1 hi
    split_ifs at hite with hge
    exact ⟨n, hn, (h.wanted p n hn (by simp)).1 hge⟩
  · rintro ⟨n, hn, hpos⟩
    exact ⟨n.sample_idx.toNat, by rw [samplePos_eq hn, if_pos ((h.wanted p n hn (by simp)).2 hpos)]⟩

def Resident (t : PrefixRadixTree) (x : ObjId) : Prop := t.is_resident x = some true

variable {x : ObjId}

theorem resident_of_none (hx : t.index_ x = none) : Resident t x ↔ x ∈ t.orphans_ := by
  unfold Resident is_resident
  rw [hx]
  simp

variable {i : Nat}

theorem resident_of_some {r : Run}
    (hx : t.index_ x = some (p, i)) (hp : t.core p = some r) : Resident t x ↔ r.resident[i]? = some true := by
  obtain ⟨n, hn, rfl⟩ := core_some hp
  unfold Resident is_resident
  rw [hx]
  simp [hn]

theorem resident_congr {t' : PrefixRadixTree} (hi : t'.index_ x = t.index_ x)
    (ho : x ∈ t'.orphans_ ↔ x ∈ t.orphans_)
    (hc : ∀ p i, t.index_ x = some (p, i) →
      (t'.core p).bind (·.resident[i]?) = (t.core p).bind (·.resident[i]?)) : Resident t' x ↔ Resident t x := by
  rcases h : t.index_ x with _ | ⟨p, i⟩
  · rw [resident_of_none h, resident_of_none (hi.trans h), ho]
  · have hview : ∀ {u : PrefixRadixTree}, u.index_ x = some (p, i) →
        u.is_resident x = (u.core p).bind (·.resident[i]?) := by
      intro u hu
      unfold is_resident core
      rw [hu]
      dsimp only
      rcases u.heap p with _ | n <;> rfl
    unfold Resident
    rw [hview h, hview (hi.trans h), hc p i h]

theorem init_good (R : ObjId → List ObjId) : Good R PrefixRadixTree.init := by
  have hcore : ∀ p r, PrefixRadixTree.init.core p = some r → p = 0 ∧ r = {} := by
    intro p r h
    obtain ⟨n, hn, rfl⟩ := core_some h
    simp only [PrefixRadixTree.init] at hn
    rcases eq_or_ne p 0 with rfl | hp
    · cases hn
      exact ⟨rfl, rfl⟩
    · rw [update_of_ne hp] at hn
      cases hn
  refine ⟨⟨⟨{}, rfl, rfl⟩, ?_, ?_, ?_, ?_, ?_⟩, ?_, ?_, by simp [PrefixRadixTree.init], rfl⟩
  · intro p r h
    rw [(hcore p r h).1]
    decide
  · intro p r h
    rw [(hcore p r h).2]
    simp
  · intro p r h hr
    exact absurd (hcore p r h).1 hr
  · intro p r x c h hc
    rw [(hcore p r h).2] at hc
    cases hc
  · intro x p i
    refine ⟨by simp [PrefixRadixTree.init], ?_⟩
    rintro ⟨r, h, hx⟩
    rw [(hcore p r h).2] at hx
    cases hx
  · intro p i
    simp only [samplePos, PrefixRadixTree.init]
    rcases eq_or_ne p 0 with rfl | hp
    · simp
    · simp [update_of_ne hp]
  · intro p n hn _
    simp only [PrefixRadixTree.init] at hn
    rcases eq_or_ne p 0 with rfl | hp
    · cases hn
      simp
    · rw [update_of_ne hp] at hn
      cases hn

/-! ## Marks -/

variable {id : ObjId}

section

variable (h : Good R t)
include h

theorem write_flag {old : Bool} (flag : Bool) (hx : t.index_ id = some (p, i)) (hp : t.heap p = some n)
    (hold : n.resident[i]? = some old) (hne : old ≠ flag) {k : Int}
    (hk : k = n.n_resident + if flag then 1 else -1) :
    ∃ t', (t.set p { n with resident := n.resident.set i flag, n_resident := k }).refresh_sampleable p = some t' ∧
      Good R t' ∧ (∃ n', t'.heap p = some n' ∧ n'.children = n.children ∧ n'.n_resident = k) ∧
      (t'.index_ = t.index_ ∧ t'.orphans_ = t.orphans_) ∧
      ∀ y, Resident t' y ↔ if y = id then flag = true else Resident t y := by
  have hcore := core_of_heap hp
  have hi := (List.getElem?_eq_some_iff.1 hold).1
  obtain ⟨hlen, hcount⟩ := h.shape.flags p n.toRun hcore
  set t1 := t.set p { n with resident := n.resident.set i flag, n_resident := k } with ht1
  have hheap1 : t1.heap p = some { n with resident := n.resident.set i flag, n_resident := k } :=
    update_self ..
  have hother1 : ∀ q ≠ p, t1.heap q = t.heap q := fun q hq => update_of_ne hq ..
  have hw1 : Wanted (insert p ∅) t1 := by
    intro q m hq hX
    have hqp : q ≠ p := by simpa using hX
    rw [hother1 q hqp] at hq
    exact h.wanted q m hq (by simp)
  obtain ⟨t', href, hcore', hsame, hl', hw'⟩ := refresh_sampleable_spec hheap1 (h.linked.set hp rfl) hw1
  have hcore1 : ∀ q ≠ p, t'.core q = t.core q := by
    intro q hq
    rw [hcore']
    unfold core
    rw [hother1 q hq]
  have hcore1p : t'.core p = some { n.toRun with resident := n.resident.set i flag, n_resident := k } := by
    rw [hcore', core_of_heap hheap1]
  have hshape : Shape R t'.root_ t'.next t'.core t'.index_ := by
    rw [hsame.root, hsame.next, hsame.index]
    apply h.shape.congr
    · intro q
      rcases eq_or_ne q p with rfl | hq
      · rw [hcore1p, hcore]
        rfl
      · rw [hcore1 q hq]
    · intro q m hq
      rcases eq_or_ne q p with rfl | hqp
      · rw [hcore1p] at hq
        cases hq
        refine ⟨by simpa using hlen, ?_⟩
        have hget : n.resident[i] = old := (List.getElem?_eq_some_iff.1 hold).2
        have hpos : old = true → 0 < n.resident.count true := by
          rintro rfl
          exact count_pos_iff.2 (mem_of_getElem? hold)
        rw [count_set hi, hget, hk, hcount]
        cases old with
        | true =>
          have hflag : flag = false := by simpa using hne.symm
          have := hpos rfl
          subst hflag
          simp
          omega
        | false =>
          have hflag : flag = true := by simpa using hne.symm
          subst hflag
          simp
      · rw [hcore1 q hqp] at hq
        exact h.shape.flags q m hq
  refine ⟨t', href, ⟨hshape, hl', hw', ?_, hsame.ambiguous.trans h.unambiguous⟩, ?_, ⟨hsame.index, hsame.orphans⟩, ?_⟩
  · rw [hsame.orphans, hsame.index]
    exact h.orphans
  · obtain ⟨n', hn', hrun⟩ := core_some hcore1p
    have hchildren := congrArg Run.children hrun
    have hn_resident := congrArg Run.n_resident hrun
    exact ⟨n', hn', hchildren, hn_resident⟩
  · intro y
    have hindex' : t'.index_ = t.index_ := hsame.index
    split_ifs with hy
    · subst hy
      rw [resident_of_some (hindex' ▸ hx) hcore1p]
      simp [hi]
    · apply resident_congr
      · rw [hindex']
      · rw [hsame.orphans]
        exact Iff.rfl
      · intro q j hq
        rcases eq_or_ne q p with rfl | hqp
        · have hij : i ≠ j := by
            rintro rfl
            obtain ⟨r, hr, hrx⟩ := (h.shape.index _ _ _).1 hx
            obtain ⟨r', hr', hry⟩ := (h.shape.index _ _ _).1 hq
            rw [hr] at hr'
            cases hr'
            rw [hrx] at hry
            cases hry
            exact hy rfl
          rw [hcore1p, hcore]
          simp [getElem?_set_ne hij]
        · rw [hcore1 q hqp]

theorem flag_of_index
    (hx : t.index_ id = some (p, i)) :
    ∃ (n : Node) (flag : Bool), t.heap p = some n ∧ n.blocks[i]? = some id ∧ n.resident[i]? = some flag := by
  obtain ⟨r, hr, hb⟩ := (h.shape.index id p i).1 hx
  obtain ⟨n, hn, rfl⟩ := core_some hr
  have hlt : i < n.resident.length := by
    rw [(h.shape.flags p n.toRun hr).1]
    exact (List.getElem?_eq_some_iff.1 hb).1
  exact ⟨n, n.resident[i], hn, hb, getElem?_eq_getElem hlt⟩

theorem is_resident_defined (id : ObjId) : ∃ b, t.is_resident id = some b := by
  unfold is_resident
  rcases hx : t.index_ id with _ | ⟨p, i⟩
  · exact ⟨_, rfl⟩
  · obtain ⟨n, flag, hn, -, hflag⟩ := flag_of_index h hx
    exact ⟨flag, by simp [hn, hflag]⟩

theorem mark_resident_spec (id : ObjId) :
    ∃ t', t.mark_resident id = some t' ∧ Good R t' ∧ (∀ y, Resident t' y ↔ y = id ∨ Resident t y) ∧ t'.index_ = t.index_ := by
  unfold mark_resident
  rcases hx : t.index_ id with _ | ⟨p, i⟩
  · refine ⟨_, rfl, { h with orphans := ?_ }, ?_, rfl⟩
    · intro x hmem
      rcases mem_insert.1 hmem with rfl | hmem
      · exact hx
      · exact h.orphans x hmem
    · intro y
      rcases eq_or_ne y id with rfl | hy
      · rw [resident_of_none (by exact hx)]
        simp
      · have hsame : Resident { t with orphans_ := insert id t.orphans_ } y ↔ Resident t y :=
          resident_congr rfl (by simp [hy]) (fun _ _ _ => rfl)
        rw [hsame]
        simp [hy]
  · obtain ⟨n, flag, hn, -, hflag⟩ := flag_of_index h hx
    simp only [hn, bind_eq_bind, bind_some, hflag]
    cases flag with
    | true =>
      refine ⟨t, rfl, h, fun y => ?_, rfl⟩
      have : Resident t id := (resident_of_some hx (core_of_heap hn)).2 hflag
      constructor
      · exact Or.inr
      · rintro (rfl | hy)
        · exact this
        · exact hy
    | false =>
      obtain ⟨t', href, hgood, -, ⟨hindex, -⟩, hres⟩ := write_flag h true hx hn hflag (by simp)
        (k := n.n_resident + 1) (by simp)
      refine ⟨t', href, hgood, fun y => ?_, hindex⟩
      rw [hres]
      split_ifs with hy <;> simp [hy]

end

/-! ## Pruning -/

theorem unindex_all (ids : List ObjId) : ∀ (index_ : ObjId → Option (Ptr × Nat)),
    (∀ x ∈ ids, index_ x = none ∨ ∃ i, index_ x = some (p, i)) →
    ∀ x, ids.foldl (unindex p) index_ x = if x ∈ ids then none else index_ x := by
  induction ids with
  | nil =>
    simp
  | cons y ids ih =>
    intro index_ hall x
    have hstep : unindex p index_ y = update index_ y none := by
      unfold unindex
      rcases hall y (by simp) with hy | ⟨i, hy⟩
      · rw [hy]
        funext z
        rcases eq_or_ne z y with rfl | hz
        · simp [hy]
        · simp [update_of_ne hz]
      · simp [hy]
    rw [foldl_cons, hstep, ih]
    · rcases eq_or_ne x y with rfl | hxy
      · simp
      · simp [hxy]
    · intro z hz
      rcases eq_or_ne z y with rfl | hzy
      · exact Or.inl (update_self ..)
      · rw [update_of_ne hzy]
        exact hall z (by simp [hz])

def allocated (t : PrefixRadixTree) : Finset Ptr := (Finset.range t.next).filter fun p => (t.heap p).isSome

structure ColdLeaf (t : PrefixRadixTree) (p : Ptr) (n : Node) (q : Ptr) (m : Node) (first : ObjId) : Prop where
  node : t.heap p = some n
  above : n.parent = some q
  parent : t.heap q = some m
  not_root : p ≠ t.root_
  apart : q ≠ p
  head : n.blocks.head? = some first
  cold : n.n_resident = 0
  leaf : ∀ x, n.children.lookup x = none

def pruned (t : PrefixRadixTree) (p : Ptr) (n : Node) (q : Ptr) (m : Node) (first : ObjId) : PrefixRadixTree :=
  { t with
    heap := update (update t.heap q (some { m with children := m.children.erase first })) p none
    index_ := n.blocks.foldl (unindex p) t.index_ }

theorem Good.cold_leaf (h : Good R t)
    (hn : t.heap p = some n) (hp : prunable (t, p) = true) : ∃ q m first, ColdLeaf t p n q m first := by
  simp only [prunable, hn, all_some, Bool.and_eq_true, bne_iff_ne, beq_iff_eq, List.isEmpty_iff] at hp
  obtain ⟨hr, hzero, hnokids⟩ := hp
  have hcore := core_of_heap hn
  obtain ⟨q, m, first, hq, hm, hfirst, -⟩ := h.shape.parent p n.toRun hcore hr
  obtain ⟨mq, hmq, -⟩ := core_some hm
  refine ⟨q, mq, first, hn, hq, hmq, hr, h.shape.parent_ne hcore hr hq, hfirst, hzero, fun x => ?_⟩
  rw [AList.lookup_eq_none, AList.mem_keys, AList.keys, hnokids]
  simp

variable {q : Ptr} {m : Node} {first : ObjId}

theorem ColdLeaf.step (hl : ColdLeaf t p n q m first) : prune_step (t, p) = some (pruned t p n q m first, q) := by
  unfold prune_step
  simp only [hl.node, bind_eq_bind, bind_some, hl.above, hl.parent, hl.head]
  rfl

theorem heap_pruned (t : PrefixRadixTree) (p : Ptr) (n : Node) (q : Ptr) (m : Node) (first : ObjId) (r : Ptr) :
    (pruned t p n q m first).heap r = if r = p then none else
      if r = q then some { m with children := m.children.erase first } else t.heap r := by
  unfold pruned
  simp only [update_apply]

theorem core_pruned : (pruned t p n q m first).core = update (update t.core q
    (some { m.toRun with children := m.children.erase first })) p none := by
  funext r
  unfold core
  rw [heap_pruned]
  simp only [update_apply]
  split_ifs <;> rfl

section

variable (h : Good R t) (hl : ColdLeaf t p n q m first)
include h hl

theorem ColdLeaf.index (x : ObjId) : (pruned t p n q m first).index_ x = if x ∈ n.blocks then none else t.index_ x := by
  apply unindex_all
  intro y hy
  obtain ⟨i, hi⟩ := mem_iff_getElem?.1 hy
  exact Or.inr ⟨i, (h.shape.index y p i).2 ⟨n.toRun, core_of_heap hl.node, hi⟩⟩

theorem ColdLeaf.linked : Linked (pruned t p n q m first) := by
  have hunsampled : ¬ 0 ≤ n.sample_idx := by
    rw [h.wanted p n hl.node (by simp)]
    exact hl.cold.le.not_gt
  have hpos : samplePos (pruned t p n q m first) = samplePos t := by
    funext r
    rcases eq_or_ne r p with rfl | hrp
    · rw [samplePos_eq hl.node, if_neg hunsampled]
      simp [samplePos, heap_pruned]
    rcases eq_or_ne r q with rfl | hrq
    · rw [samplePos_eq hl.parent]
      simp [samplePos, heap_pruned, hrp]
    · simp [samplePos, heap_pruned, hrp, hrq]
  unfold Linked
  rw [hpos]
  exact h.linked

theorem ColdLeaf.wanted : Wanted ∅ (pruned t p n q m first) := by
  intro r k hk _
  rw [heap_pruned] at hk
  split_ifs at hk with hrp hrq
  · cases hk
    exact h.wanted q m hl.parent (by simp)
  · exact h.wanted r k hk (by simp)

theorem ColdLeaf.resident (y : ObjId) : Resident (pruned t p n q m first) y ↔ Resident t y := by
  have hcore := core_of_heap hl.node
  have hindex := hl.index h y
  by_cases hy : y ∈ n.blocks
  · rw [if_pos hy] at hindex
    obtain ⟨i, hi⟩ := mem_iff_getElem?.1 hy
    have hold : t.index_ y = some (p, i) := (h.shape.index y p i).2 ⟨n.toRun, hcore, hi⟩
    rw [resident_of_none hindex, resident_of_some hold hcore]
    apply iff_of_false
    · intro hmem
      cases (h.orphans y hmem).symm.trans hold
    · intro hres
      have hcount := (h.shape.flags p n.toRun hcore).2
      have hpos := count_pos_iff.2 (mem_of_getElem? hres)
      have hcold := hl.cold
      omega
  · rw [if_neg hy] at hindex
    apply resident_congr hindex Iff.rfl
    intro r i hri
    have hrp : r ≠ p := by
      rintro rfl
      obtain ⟨k, hk, hky⟩ := (h.shape.index y r i).1 hri
      rw [hcore] at hk
      cases hk
      exact hy (mem_of_getElem? hky)
    rw [core_pruned, update_of_ne hrp]
    rcases eq_or_ne r q with rfl | hrq
    · rw [update_self, core_of_heap hl.parent]
      rfl
    · rw [update_of_ne hrq]

theorem ColdLeaf.good : Good R (pruned t p n q m first) := by
  refine ⟨?_, hl.linked h, hl.wanted h, ?_, h.unambiguous⟩
  · rw [core_pruned]
    exact h.shape.cut_leaf (core_of_heap hl.node) hl.above (core_of_heap hl.parent) hl.head hl.not_root hl.leaf (hl.index h)
  · intro x hx
    rw [hl.index h]
    split_ifs
    · rfl
    · exact h.orphans x hx

theorem ColdLeaf.card_lt : (allocated (pruned t p n q m first)).card < (allocated t).card := by
  apply card_lt_card
  rw [ssubset_iff_of_subset]
  · refine ⟨p, ?_, ?_⟩
    · simp only [allocated, Finset.mem_filter, Finset.mem_range]
      exact ⟨h.shape.fresh p n.toRun (core_of_heap hl.node), by rw [hl.node]; rfl⟩
    · simp [allocated, heap_pruned]
  · intro r hr
    simp only [allocated, Finset.mem_filter, heap_pruned] at hr ⊢
    refine ⟨hr.1, ?_⟩
    have hsome := hr.2
    split_ifs at hsome with hrp hrq
    · cases hsome
    · rw [hrq, hl.parent]
      rfl
    · exact hsome

end

theorem prune_step_spec {w : PrefixRadixTree × Ptr} (h : Good R w.1) (hn : w.1.heap w.2 = some n) (hp : prunable w = true) :
    ∃ w', prune_step w = some w' ∧ Good R w'.1 ∧ (∃ m, w'.1.heap w'.2 = some m) ∧
      (allocated w'.1).card < (allocated w.1).card ∧ w'.1.next = w.1.next ∧
      (∀ y, Resident w'.1 y ↔ Resident w.1 y) ∧ w'.1.orphans_ = w.1.orphans_ := by
  obtain ⟨q, m, first, hl⟩ := h.cold_leaf hn hp
  have hparent := heap_pruned w.1 w.2 n q m first q
  rw [if_neg hl.apart, if_pos rfl] at hparent
  exact ⟨_, hl.step, hl.good h, ⟨_, hparent⟩, hl.card_lt h, rfl, hl.resident h, rfl⟩

theorem prune_spec (h : Good R t)
    (hn : t.heap p = some n) :
    ∃ t', t.prune_if_empty_leaf p = some t' ∧ Good R t' ∧ (∀ y, Resident t' y ↔ Resident t y) ∧ t'.orphans_ = t.orphans_ := by
  let I : PrefixRadixTree × Ptr → Prop := fun w => Good R w.1 ∧ (∃ m, w.1.heap w.2 = some m) ∧
    (∀ y, Resident w.1 y ↔ Resident t y) ∧ w.1.orphans_ = t.orphans_
  have hbody : ∀ w, I w → prunable w = true → ∃ w', prune_step w = some w' ∧ I w' ∧
      (allocated w'.1).card < (allocated w.1).card := by
    rintro w ⟨hg, ⟨m, hm⟩, hres, ho⟩ hc
    obtain ⟨w', hstep, hg', hm', hlt, -, hres', ho'⟩ := prune_step_spec hg hm hc
    exact ⟨w', hstep, ⟨hg', hm', fun y => (hres' y).trans (hres y), ho'.trans ho⟩, hlt⟩
  have hfuel : (allocated t).card ≤ t.next := by
    have := card_filter_le (Finset.range t.next) fun p => (t.heap p).isSome = true
    rw [card_range] at this
    exact this
  obtain ⟨w, hloop, ⟨hg, -, hres⟩, -⟩ := whileLoop_total I (fun w => (allocated w.1).card) hbody t.next (t, p)
    ⟨h, ⟨n, hn⟩, fun _ => Iff.rfl, rfl⟩ hfuel
  exact ⟨w.1, by simp [prune_if_empty_leaf, hloop], hg, hres⟩

theorem mark_evicted_spec (h : Good R t) (id : ObjId) :
    ∃ t' kept, t.mark_evicted id = some (t', kept) ∧ Good R t' ∧ (∀ y, Resident t' y ↔ y ≠ id ∧ Resident t y) ∧
      t'.orphans_ = t.orphans_.erase id := by
  set t0 : PrefixRadixTree := { t with orphans_ := t.orphans_.erase id } with ht0
  have h0 : Good R t0 := { h with orphans := fun x hx => h.orphans x (mem_of_mem_erase hx) }
  have hother : ∀ y ≠ id, (Resident t0 y ↔ Resident t y) := fun y hy =>
    resident_congr rfl (by simp [ht0, hy]) (fun _ _ _ => rfl)
  unfold mark_evicted
  dsimp only
  rcases hx : t.index_ id with _ | ⟨p, i⟩
  · refine ⟨t0, false, rfl, h0, fun y => ?_, rfl⟩
    rcases eq_or_ne y id with rfl | hy
    · rw [resident_of_none (show t0.index_ y = none from hx)]
      simp [ht0]
    · rw [hother y hy]
      simp [hy]
  · obtain ⟨n, flag, hn, -, hflag⟩ := flag_of_index h0 (show t0.index_ id = some (p, i) from hx)
    have hn' : t.heap p = some n := hn
    simp only [hn', bind_eq_bind, bind_some, hflag, Option.pure_def]
    cases flag with
    | false =>
      refine ⟨t0, true, rfl, h0, fun y => ?_, rfl⟩
      rcases eq_or_ne y id with rfl | hy
      · rw [resident_of_some (show t0.index_ y = some (p, i) from hx) (core_of_heap hn), hflag]
        simp
      · rw [hother y hy]
        simp [hy]
    | true =>
      obtain ⟨t1, href, hgood, ⟨n1, hn1, -, -⟩, ⟨-, ho1⟩, hres⟩ := write_flag h0 false
        (show t0.index_ id = some (p, i) from hx) hn hflag (by simp) (k := n.n_resident - 1) (by simp; omega)
      obtain ⟨t', hprune, hgood', hres', ho⟩ := prune_spec hgood hn1
      refine ⟨t', !(n1.n_resident == 0 && n1.children.entries.isEmpty), ?_, hgood', fun y => ?_, ho.trans ho1⟩
      · simp only [Bool.not_true, Bool.false_eq_true, if_false]
        rw [show (({ t with orphans_ := t.orphans_.erase id } : PrefixRadixTree).set p
          { n with resident := n.resident.set i false, n_resident := n.n_resident - 1 }).refresh_sampleable p =
            some t1 from href]
        simp only [bind_some, hn1, hprune]
      · rw [hres', hres]
        rcases eq_or_ne y id with rfl | hy
        · simp
        · rw [if_neg hy, hother y hy]
          simp [hy]

end CacheSim.Radix
