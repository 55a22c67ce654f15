import CacheSim.Lib.Partition

/-!
# Linked lists with an iterator for each element

A family of doubly linked lists, and a map from each element to the list and the node that hold it.
A node keeps its address when it is spliced, and no address is used twice.
-/

namespace CacheSim.Lib

open List Function


variable {κ ι : Type}

structure NodeLists (κ ι : Type) where
  /-- address and element, from the front -/
  nodes : κ → List (Nat × ι) := fun _ => []
  slot : ι → Option (κ × Nat) := fun _ => none
  fresh : Nat := 0

namespace NodeLists

def items (q : NodeLists κ ι) (k : κ) : List ι := (q.nodes k).map (·.2)

def part (q : NodeLists κ ι) : Part κ ι κ := ⟨fun i => (q.slot i).map (·.1), q.items⟩

def cut (l : List (Nat × ι)) (a : Nat) : List (Nat × ι) := l.eraseP (·.1 == a)

/-! ## True positions -/

/-- Each element is in one node of one list at most, and its iterator points there. -/
structure Located (q : NodeLists κ ι) : Prop where
  single : ∀ k, ((q.nodes k).map (·.1)).Nodup
  slot : ∀ i k a, q.slot i = some (k, a) ↔ (a, i) ∈ q.nodes k
  fresh : ∀ k n, n ∈ q.nodes k → n.1 < q.fresh

variable {q : NodeLists κ ι}

theorem located_empty : ({} : NodeLists κ ι).Located := by
  constructor <;> simp

namespace Located

variable {k : κ}

section

variable (h : q.Located)
include h

theorem mem_items {i : ι} : i ∈ q.items k ↔ ∃ a, q.slot i = some (k, a) := by
  unfold items
  rw [mem_map]
  constructor
  · rintro ⟨⟨a, j⟩, hn, rfl⟩
    exact ⟨a, (h.slot _ _ _).2 hn⟩
  · rintro ⟨a, ha⟩
    exact ⟨(a, i), (h.slot _ _ _).1 ha, rfl⟩

theorem items_nodup (k : κ) : (q.items k).Nodup := by
  apply List.Nodup.map_on _ (h.single k).of_map
  rintro ⟨a, i⟩ hn ⟨b, j⟩ hn' rfl
  have ha := (h.slot _ _ _).2 hn
  have hb := (h.slot _ _ _).2 hn'
  rw [ha] at hb
  cases hb
  rfl

theorem part_wf : q.part.WF id := by
  intro k
  refine ⟨h.items_nodup k, fun i => ?_⟩
  show i ∈ q.items k ↔ ∃ r, (q.slot i).map (·.1) = some r ∧ id r = k
  rw [h.mem_items]
  constructor
  · rintro ⟨a, ha⟩
    exact ⟨k, by rw [ha]; rfl, rfl⟩
  · rintro ⟨r, hr, rfl⟩
    obtain ⟨⟨r', a⟩, ha, rfl⟩ := Option.map_eq_some_iff.1 hr
    exact ⟨a, ha⟩

theorem disjoint {k k' : κ} (hk : k ≠ k') : (q.items k).Disjoint (q.items k') :=
  h.part_wf.disjoint hk

theorem nodup_append {k k' : κ} (hk : k ≠ k') : (q.items k ++ q.items k').Nodup :=
  (h.items_nodup k).append (h.items_nodup k') (h.disjoint hk)

theorem part_table {i : ι} : q.part.table i = some k ↔ i ∈ q.items k := by
  rw [h.mem_items]
  show (q.slot i).map (·.1) = some k ↔ _
  rw [Option.map_eq_some_iff]
  constructor
  · rintro ⟨⟨k', a⟩, ha, rfl⟩
    exact ⟨a, ha⟩
  · rintro ⟨a, ha⟩
    exact ⟨(k, a), ha, rfl⟩

theorem cut_eq {i : ι} {a : Nat} (hi : q.slot i = some (k, a)) :
    ∃ l1 l2, q.nodes k = l1 ++ (a, i) :: l2 ∧ cut (q.nodes k) a = l1 ++ l2 ∧
      (q.nodes k).filter (·.1 == a) = [(a, i)] := by
  have hmem := (h.slot _ _ _).1 hi
  obtain ⟨n, l1, l2, -, hn, hnodes, hcut⟩ := exists_of_eraseP hmem (p := (·.1 == a)) (by simp)
  have hin : n ∈ q.nodes k := by simp [hnodes]
  have heq : n = (a, i) := inj_on_of_nodup_map (h.single k) hin hmem (by simpa using hn)
  subst heq
  refine ⟨l1, l2, hnodes, hcut, ?_⟩
  have hnodup := h.single k
  rw [hnodes, map_append, map_cons, nodup_middle, nodup_cons, ← map_append] at hnodup
  have hnone : ∀ l, l ⊆ l1 ++ l2 → l.filter (·.1 == a) = [] := by
    intro l hl
    rw [filter_eq_nil_iff]
    intro n hn heq
    exact hnodup.1 (mem_map.2 ⟨n, hl hn, by simpa using heq⟩)
  rw [hnodes, filter_append, filter_cons_of_pos (by simp), hnone l1 (by simp), hnone l2 (by simp)]
  rfl

theorem not_mem {l1 l2 : List (Nat × ι)} {a : Nat} {i : ι}
    (hk : q.nodes k = l1 ++ (a, i) :: l2) : ∀ n ∈ l1 ++ l2, n.2 ≠ i := by
  have hnodup := h.items_nodup k
  unfold items at hnodup
  rw [hk, map_append, map_cons, nodup_middle, nodup_cons, ← map_append] at hnodup
  intro n hn heq
  exact hnodup.1 (mem_map.2 ⟨n, hn, heq⟩)

theorem of_perm {nodes : κ → List (Nat × ι)} (hperm : ∀ k, (nodes k).Perm (q.nodes k)) :
    Located { q with nodes := nodes } := by
  refine ⟨fun k => ((hperm k).map _).nodup_iff.2 (h.single k), fun i k a => ?_, fun k n hn => ?_⟩
  · exact (h.slot i k a).trans (hperm k).mem_iff.symm
  · exact h.fresh k n ((hperm k).mem_iff.1 hn)

end

end Located

/-! ## Operations -/

variable [DecidableEq κ] [DecidableEq ι]

def push (q : NodeLists κ ι) (i : ι) (k : κ) : NodeLists κ ι where
  nodes := update q.nodes k (q.nodes k ++ [(q.fresh, i)])
  slot := update q.slot i (some (k, q.fresh))
  fresh := q.fresh + 1

def unlink (q : NodeLists κ ι) (i : ι) : NodeLists κ ι :=
  match q.slot i with
  | none => q
  | some (k, a) => { q with
      nodes := update q.nodes k (cut (q.nodes k) a)
      slot := update q.slot i none }

def pop (q : NodeLists κ ι) (k : κ) : NodeLists κ ι :=
  match q.nodes k with
  | [] => q
  | n :: l => { q with
      nodes := update q.nodes k l
      slot := update q.slot n.2 none }

def splice (q : NodeLists κ ι) (i : ι) : NodeLists κ ι :=
  match q.slot i with
  | none => q
  | some (k, a) =>
    { q with nodes := update q.nodes k (cut (q.nodes k) a ++ (q.nodes k).filter (·.1 == a)) }

variable {i : ι}

theorem unlink_none (hi : q.slot i = none) : q.unlink i = q := by
  unfold unlink
  rw [hi]

omit [DecidableEq ι] in
theorem splice_none (hi : q.slot i = none) : q.splice i = q := by
  unfold splice
  rw [hi]

omit [DecidableEq ι] in
theorem splice_slot (q : NodeLists κ ι) (i : ι) : (q.splice i).slot = q.slot := by
  unfold splice
  rcases q.slot i with _ | ⟨k, a⟩ <;> rfl

theorem unlink_slot (q : NodeLists κ ι) (i : ι) : (q.unlink i).slot = update q.slot i none := by
  unfold unlink
  rcases hi : q.slot i with _ | ⟨k, a⟩
  · dsimp only
    rw [← hi, update_eq_self]
  · rfl

namespace Located

section

variable (h : q.Located)
include h

theorem without {k : κ} {l1 l2 : List (Nat × ι)} {a : Nat} {i : ι}
    (hk : q.nodes k = l1 ++ (a, i) :: l2) :
    Located { q with nodes := update q.nodes k (l1 ++ l2), slot := update q.slot i none } := by
  have hi : q.slot i = some (k, a) := (h.slot _ _ _).2 (by simp [hk])
  have hsub : ∀ k' n, n ∈ update q.nodes k (l1 ++ l2) k' ↔ n ∈ q.nodes k' ∧ n.2 ≠ i := by
    intro k' n
    rcases eq_or_ne k' k with rfl | hne
    · rw [update_self, hk]
      constructor
      · intro hn
        exact ⟨by simp only [mem_append] at hn ⊢; tauto, h.not_mem hk n hn⟩
      · rintro ⟨hn, hn'⟩
        simp only [mem_append, mem_cons] at hn ⊢
        rcases hn with hn | rfl | hn
        · exact Or.inl hn
        · exact absurd rfl hn'
        · exact Or.inr hn
    · rw [update_of_ne hne]
      refine ⟨fun hn => ⟨hn, ?_⟩, And.left⟩
      rintro rfl
      have := (h.slot n.2 k' n.1).2 hn
      rw [hi] at this
      cases this
      exact hne rfl
  refine ⟨fun k' => ?_, fun j k' b => ?_, fun k' n hn => h.fresh k' n ((hsub k' n).1 hn).1⟩
  · dsimp only
    rcases eq_or_ne k' k with rfl | hne
    · have hnodup := h.single k'
      rw [update_self]
      rw [hk, map_append, map_cons, nodup_middle, nodup_cons, ← map_append] at hnodup
      exact hnodup.2
    · rw [update_of_ne hne]
      exact h.single k'
  · dsimp only
    rw [hsub]
    rcases eq_or_ne j i with rfl | hne
    · simp
    · rw [update_of_ne hne, h.slot]
      exact ⟨fun hn => ⟨hn, hne⟩, And.left⟩

theorem push {i : ι} (hi : q.slot i = none) (k : κ) : (q.push i k).Located := by
  have hnew : ∀ k', (q.fresh, i) ∉ q.nodes k' := by
    intro k' hn
    exact absurd (h.fresh k' _ hn) (lt_irrefl _)
  have hmem : ∀ k' n, n ∈ (q.push i k).nodes k' ↔ n ∈ q.nodes k' ∨ (k' = k ∧ n = (q.fresh, i)) := by
    intro k' n
    unfold NodeLists.push
    rcases eq_or_ne k' k with rfl | hne
    · simp
    · simp [hne]
  refine ⟨fun k' => ?_, fun j k' b => ?_, fun k' n hn => ?_⟩
  · unfold NodeLists.push
    dsimp only
    rcases eq_or_ne k' k with rfl | hne
    · rw [update_self, map_append, map_singleton, ← concat_eq_append, nodup_concat]
      refine ⟨fun hin => ?_, h.single k'⟩
      obtain ⟨n, hn, heq⟩ := mem_map.1 hin
      have := h.fresh k' n hn
      omega
    · rw [update_of_ne hne]
      exact h.single k'
  · rw [hmem]
    show update q.slot i (some (k, q.fresh)) j = _ ↔ _
    rcases eq_or_ne j i with rfl | hne
    · rw [update_self, ← h.slot, hi]
      simp only [Option.some.injEq, Prod.mk.injEq, reduceCtorEq, false_or, and_true]
      exact ⟨fun ⟨h1, h2⟩ => ⟨h1.symm, h2.symm⟩, fun ⟨h1, h2⟩ => ⟨h1.symm, h2.symm⟩⟩
    · rw [update_of_ne hne, h.slot]
      simp [hne]
  · show n.1 < q.fresh + 1
    rcases (hmem k' n).1 hn with hold | ⟨-, rfl⟩
    · have := h.fresh k' n hold
      omega
    · exact Nat.lt_succ_self _

theorem unlink (i : ι) : (q.unlink i).Located := by
  unfold NodeLists.unlink
  rcases hi : q.slot i with _ | ⟨k, a⟩
  · exact h
  · obtain ⟨l1, l2, hk, hcut, -⟩ := h.cut_eq hi
    dsimp only
    rw [hcut]
    exact h.without hk

theorem pop (k : κ) : (q.pop k).Located := by
  unfold NodeLists.pop
  rcases hk : q.nodes k with _ | ⟨⟨a, i⟩, l⟩
  · exact h
  · have hfirst : q.nodes k = [] ++ (a, i) :: l := hk
    exact h.without hfirst

end

omit [DecidableEq ι] in
theorem splice (h : q.Located) (i : ι) : (q.splice i).Located := by
  unfold NodeLists.splice
  rcases hi : q.slot i with _ | ⟨k, a⟩
  · exact h
  · obtain ⟨l1, l2, hk, hcut, hnode⟩ := h.cut_eq hi
    apply h.of_perm
    intro k'
    rcases eq_or_ne k' k with rfl | hne
    · rw [update_self, hcut, hnode, hk]
      exact (perm_append_singleton _ _).trans perm_middle.symm
    · rw [update_of_ne hne]

end Located

/-! ## What the lists hold -/

theorem items_push (q : NodeLists κ ι) (i : ι) (k : κ) : (q.push i k).items = update q.items k (q.items k ++ [i]) := by
  funext k'
  unfold items push
  rcases eq_or_ne k' k with rfl | hne
  · simp
  · simp [hne]

variable {a : Nat}

omit [DecidableEq κ] in
theorem Located.items_cut (h : q.Located) {k : κ} (hi : q.slot i = some (k, a)) :
    (cut (q.nodes k) a).map (·.2) = (q.items k).erase i := by
  obtain ⟨l1, l2, hk, hcut, -⟩ := h.cut_eq hi
  have hnot : i ∉ l1.map (·.2) := by
    intro hin
    obtain ⟨n, hn, heq⟩ := mem_map.1 hin
    exact h.not_mem hk n (mem_append_left _ hn) heq
  unfold items
  rw [hcut, hk, map_append, map_append, map_cons, erase_append_right _ hnot,
    erase_cons_head]

theorem Located.items_unlink (h : q.Located) {k : κ} (hi : q.slot i = some (k, a)) :
    (q.unlink i).items = update q.items k ((q.items k).erase i) := by
  have hcut := h.items_cut hi
  funext k'
  unfold items NodeLists.unlink
  rw [hi]
  dsimp only
  rcases eq_or_ne k' k with rfl | hne
  · rw [update_self, update_self]
    exact hcut
  · simp [hne]

theorem Located.items_splice (h : q.Located) {k : κ} (hi : q.slot i = some (k, a)) :
    (q.splice i).items = update q.items k ((q.items k).erase i ++ [i]) := by
  obtain ⟨-, -, -, -, hnode⟩ := h.cut_eq hi
  have hcut := h.items_cut hi
  funext k'
  unfold items NodeLists.splice
  rw [hi]
  dsimp only
  rcases eq_or_ne k' k with rfl | hne
  · rw [update_self, update_self, map_append, hcut, hnode]
    rfl
  · rw [update_of_ne hne, update_of_ne hne]

theorem items_pop {k : κ} {n : Nat × ι} {l : List (Nat × ι)} (hk : q.nodes k = n :: l) :
    (q.pop k).items = update q.items k (l.map (·.2)) := by
  funext k'
  unfold items pop
  rw [hk]
  rcases eq_or_ne k' k with rfl | hne
  · simp
  · simp [hne]

end NodeLists

end CacheSim.Lib
