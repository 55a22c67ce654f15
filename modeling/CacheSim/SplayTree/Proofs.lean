import CacheSim.SplayTree.Model
import Mathlib.Algebra.BigOperators.Group.List.Basic
import Mathlib.Tactic.Abel

/-!
# A splay tree is a sorted list

Rotations leave the entries in their order, and `splay` repairs the sums on its way to the root.
-/

namespace CacheSim.Splay

open Node
open List (filter_append filter_cons_of_neg filter_eq_nil_iff filter_eq_self forall_mem_cons map_cons mem_append mem_cons mem_cons_self mem_filter nil_append sum_cons)

variable {K V : Type}

/-! ## The entries -/

def Node.entries : Node K V → List (K × V)
  | nil => []
  | node l x r => l.entries ++ (x.first, x.second) :: r.entries

def before : List (Parent K V) → List (K × V)
  | [] => []
  | .of_left _ _ :: path => before path
  | .of_right l p :: path => before path ++ l.entries ++ [(p.first, p.second)]

def after : List (Parent K V) → List (K × V)
  | [] => []
  | .of_left p r :: path => (p.first, p.second) :: r.entries ++ after path
  | .of_right _ _ :: path => after path

def Parent.sibling : Parent K V → Node K V
  | .of_left _ r => r
  | .of_right l _ => l

section Sums

variable [AddCommGroup V]

def Node.Sums : Node K V → Prop
  | nil => True
  | node l x r => x.sum = x.second + l.sum + r.sum ∧ l.Sums ∧ r.Sums

theorem Node.Sums.sum_eq {t : Node K V} (h : t.Sums) : t.sum = (t.entries.map Prod.snd).sum := by
  induction t with
  | nil => rfl
  | node l x r ihl ihr =>
    obtain ⟨hsum, hl, hr⟩ := h
    rw [Node.sum, hsum, ihl hl, ihr hr, entries, List.map_append, map_cons, List.sum_append, sum_cons]
    abel

@[simp] theorem entries_maintain (t : Node K V) : t.maintain.entries = t.entries := by
  cases t <;> rfl

theorem sums_maintain {l r : Node K V} {x : Item K V} (hl : l.Sums) (hr : r.Sums) : (maintain (node l x r)).Sums :=
  ⟨rfl, hl, hr⟩

@[simp] theorem sibling_maintain (p : Parent K V) (x : Node K V) : (p.maintain x).sibling = p.sibling := by
  cases p <;> rfl

@[simp] theorem length_maintain_parent (x : Node K V) (path : List (Parent K V)) : (maintain_parent x path).length = path.length := by
  cases path <;> rfl

@[simp] theorem before_maintain_parent (x : Node K V) (path : List (Parent K V)) : before (maintain_parent x path) = before path := by
  rcases path with - | ⟨p | p, path⟩ <;> rfl

@[simp] theorem after_maintain_parent (x : Node K V) (path : List (Parent K V)) : after (maintain_parent x path) = after path := by
  rcases path with - | ⟨p | p, path⟩ <;> rfl

variable {path : List (Parent K V)}

theorem siblings_maintain_parent (h : ∀ p ∈ path, p.sibling.Sums) (x : Node K V) :
    ∀ p ∈ maintain_parent x path, p.sibling.Sums := by
  cases path with
  | nil => exact h
  | cons p path =>
    intro q hq
    rcases mem_cons.1 hq with rfl | hq
    · rw [sibling_maintain]
      exact h p mem_cons_self
    · exact h q (List.mem_cons_of_mem _ hq)

/-! ## Splaying -/

/-- The entry `e` is at the end of the path, `pre` are the entries on its left and `post` those on its right. The sums
of the parents need not be right. -/
structure Focus (pre : List (K × V)) (e : K × V) (post : List (K × V)) (s : Node K V × List (Parent K V)) : Prop where
  root : ∃ l x r, s.1 = node l x r ∧ (x.first, x.second) = e ∧ before s.2 ++ l.entries = pre ∧ r.entries ++ after s.2 = post
  sums : s.1.Sums
  siblings : ∀ p ∈ s.2, p.sibling.Sums

variable {pre post : List (K × V)} {e : K × V} {s : Node K V × List (Parent K V)}

theorem Focus.step (h : Focus pre e post s) : Focus pre e post (splay_step s) := by
  obtain ⟨x, path⟩ := s
  obtain ⟨⟨l, it, r, hx, rfl, rfl, rfl⟩, hsums, hsib⟩ := h
  subst hx
  obtain ⟨hsum, hl, hr⟩ := hsums
  match path with
  | [] => exact ⟨⟨l, it, r, rfl, rfl, rfl, rfl⟩, ⟨hsum, hl, hr⟩, hsib⟩
  | [.of_left p pr] =>
    have hpr : pr.Sums := hsib _ mem_cons_self
    refine ⟨⟨_, _, _, rfl, rfl, ?_, ?_⟩, sums_maintain hl (sums_maintain hr hpr), by simp [splay_step]⟩
    · simp [before, splay_step]
    · simp [after, splay_step, entries]
  | [.of_right pl p] =>
    have hpl : pl.Sums := hsib _ mem_cons_self
    refine ⟨⟨_, _, _, rfl, rfl, ?_, ?_⟩, sums_maintain (sums_maintain hpl hl) hr, by simp [splay_step]⟩
    · simp [before, splay_step, entries]
    · simp [after, splay_step]
  | .of_left p pr :: .of_left g gr :: path =>
    have hpr : pr.Sums := hsib _ mem_cons_self
    have hgr : gr.Sums := hsib (.of_left g gr) (by simp)
    refine ⟨⟨_, _, _, rfl, rfl, ?_, ?_⟩, sums_maintain hl (sums_maintain hr (sums_maintain hpr hgr)),
      siblings_maintain_parent (fun q hq => hsib q (by simp [hq])) _⟩
    · simp [before, splay_step]
    · simp [after, splay_step, entries]
  | .of_right pl p :: .of_right gl g :: path =>
    have hpl : pl.Sums := hsib _ mem_cons_self
    have hgl : gl.Sums := hsib (.of_right gl g) (by simp)
    refine ⟨⟨_, _, _, rfl, rfl, ?_, ?_⟩, sums_maintain (sums_maintain (sums_maintain hgl hpl) hl) hr,
      siblings_maintain_parent (fun q hq => hsib q (by simp [hq])) _⟩
    · simp [before, splay_step, entries]
    · simp [after, splay_step]
  | .of_left p pr :: .of_right gl g :: path =>
    have hpr : pr.Sums := hsib _ mem_cons_self
    have hgl : gl.Sums := hsib (.of_right gl g) (by simp)
    refine ⟨⟨_, _, _, rfl, rfl, ?_, ?_⟩, sums_maintain (sums_maintain hgl hl) (sums_maintain hr hpr),
      siblings_maintain_parent (fun q hq => hsib q (by simp [hq])) _⟩
    · simp [before, splay_step, entries]
    · simp [after, splay_step, entries]
  | .of_right pl p :: .of_left g gr :: path =>
    have hpl : pl.Sums := hsib _ mem_cons_self
    have hgr : gr.Sums := hsib (.of_left g gr) (by simp)
    refine ⟨⟨_, _, _, rfl, rfl, ?_, ?_⟩, sums_maintain (sums_maintain hpl hl) (sums_maintain hr hgr),
      siblings_maintain_parent (fun q hq => hsib q (by simp [hq])) _⟩
    · simp [before, splay_step, entries]
    · simp [after, splay_step, entries]

theorem length_splay_step (s : Node K V × List (Parent K V)) : (splay_step s).2.length ≤ s.2.length - 1 := by
  obtain ⟨x, path⟩ := s
  match path with
  | [] | [.of_left _ _] | [.of_right _ _] => exact le_rfl
  | .of_left _ _ :: .of_left _ _ :: path | .of_left _ _ :: .of_right _ _ :: path
  | .of_right _ _ :: .of_left _ _ :: path | .of_right _ _ :: .of_right _ _ :: path =>
    simp [splay_step]

theorem splay_iterate (P : Node K V × List (Parent K V) → Prop) (hstep : ∀ s, P s → P (splay_step s)) (n : Nat)
    (s : Node K V × List (Parent K V)) (hs : P s) (hn : s.2.length ≤ n) : P ((splay_step^[n] s).1, []) := by
  induction n generalizing s with
  | zero =>
    obtain ⟨x, path⟩ := s
    obtain rfl : path = [] := List.eq_nil_of_length_eq_zero (Nat.le_zero.1 hn)
    exact hs
  | succ n ih =>
    have hlen := length_splay_step s
    exact ih (splay_step s) (hstep s hs) (by omega)

theorem splay_invariant {P : Node K V × List (Parent K V) → Prop} (hstep : ∀ s, P s → P (splay_step s)) {x : Node K V}
    (h : P (x, path)) : P (splay x path, []) :=
  splay_iterate P hstep path.length (x, path) h le_rfl

theorem Focus.splay {x : Node K V} (h : Focus pre e post (x, path)) :
    ∃ l it r, splay x path = node l it r ∧ (it.first, it.second) = e ∧ l.entries = pre ∧ r.entries = post ∧ (node l it r).Sums := by
  obtain ⟨⟨l, it, r, hroot, he, hpre, hpost⟩, hsums, -⟩ := splay_invariant (fun _ hs => Focus.step hs) h
  refine ⟨l, it, r, hroot, he, by simpa [before] using hpre, by simpa [after] using hpost, ?_⟩
  exact hroot ▸ hsums

/-! ## The leftmost node -/

/-- The leftmost node on the right of `n` on its way up: in the end `n` is its left child, with the left child `left` and
no right child. -/
def Rises (left : Node K V) (n : K × V) : Node K V × List (Parent K V) → Prop
  | (x, []) => ∃ it y r, x = node (node left it nil) y r ∧ (it.first, it.second) = n
  | (x, path) => ∃ y r lefts it, x = node nil y r ∧ path = lefts ++ [.of_right left it] ∧ (∀ p ∈ lefts, ∃ it r, p = .of_left it r) ∧
      (it.first, it.second) = n

variable {left : Node K V}

theorem Rises.step {n : K × V} {s : Node K V × List (Parent K V)} (h : Rises left n s) : Rises left n (splay_step s) := by
  obtain ⟨x, path⟩ := s
  match path, h with
  | [], h => exact h
  | q :: path, ⟨y, r, lefts, it, hx, hpath, hlefts, hn⟩ =>
    subst hx hn
    match lefts with
    | [] =>
      cases hpath
      exact ⟨_, _, _, rfl, rfl⟩
    | [p] =>
      obtain ⟨p, pr, rfl⟩ := hlefts p (by simp)
      cases hpath
      exact ⟨_, _, _, rfl, rfl⟩
    | [p, p'] =>
      obtain ⟨p, pr, rfl⟩ := hlefts p (by simp)
      obtain ⟨p', pr', rfl⟩ := hlefts p' (by simp)
      cases hpath
      exact ⟨_, _, [], _, rfl, rfl, by simp, rfl⟩
    | p :: p' :: p'' :: lefts =>
      obtain ⟨p, pr, rfl⟩ := hlefts p (by simp)
      obtain ⟨p', pr', rfl⟩ := hlefts p' (by simp)
      obtain ⟨p'', pr'', rfl⟩ := hlefts p'' (by simp)
      cases hpath
      refine ⟨_, _, .of_left _ pr'' :: lefts, it, rfl, rfl, ?_, rfl⟩
      intro q hq
      rcases mem_cons.1 hq with rfl | hq
      · exact ⟨_, _, rfl⟩
      · exact hlefts q (by simp [hq])

omit [AddCommGroup V] in
theorem rises_subtreeMin {n : Item K V} (t : Node K V) (ht : t ≠ nil) (lefts : List (Parent K V))
    (hlefts : ∀ p ∈ lefts, ∃ it r, p = .of_left it r) :
    Rises left (n.first, n.second) (t.subtreeMin (lefts ++ [.of_right left n])) := by
  induction t generalizing lefts with
  | nil => exact absurd rfl ht
  | node l y r ihl ihr =>
    cases l with
    | nil =>
      cases lefts with
      | nil => exact ⟨y, r, [], n, rfl, rfl, hlefts, rfl⟩
      | cons p lefts => exact ⟨y, r, p :: lefts, n, rfl, rfl, hlefts, rfl⟩
    | node ll z lr =>
      rw [subtreeMin, ← List.cons_append]
      apply ihl (by simp)
      intro p hp
      rcases mem_cons.1 hp with rfl | hp
      · exact ⟨_, _, rfl⟩
      · exact hlefts p hp

theorem focus_subtreeMin (t : Node K V) (ht : t ≠ nil) (hsums : t.Sums) (path : List (Parent K V))
    (hsib : ∀ p ∈ path, p.sibling.Sums) :
    ∃ e rest, t.entries = e :: rest ∧ Focus (before path) e (rest ++ after path) (t.subtreeMin path) := by
  induction t generalizing path with
  | nil => exact absurd rfl ht
  | node l y r ihl ihr =>
    cases l with
    | nil => exact ⟨(y.first, y.second), r.entries, rfl, ⟨nil, y, r, rfl, rfl, by simp [entries, subtreeMin], rfl⟩, hsums, hsib⟩
    | node ll z lr =>
      have hsib' : ∀ p ∈ .of_left y r :: path, p.sibling.Sums := by
        intro p hp
        rcases mem_cons.1 hp with rfl | hp
        · exact hsums.2.2
        · exact hsib p hp
      obtain ⟨e, rest, hentries, hfocus⟩ := ihl (by simp) hsums.2.1 _ hsib'
      refine ⟨e, rest ++ (y.first, y.second) :: r.entries, ?_, ?_⟩
      · rw [entries, hentries]
        rfl
      · rw [subtreeMin]
        simpa [before, after] using hfocus

theorem join_children {left right : Node K V} {n : Item K V} (hsums : (node left n right).Sums) (hright : right ≠ nil) :
    ∃ n' y r, splay (right.subtreeMin [.of_right left n]).1 (right.subtreeMin [.of_right left n]).2 = node (node left n' nil) y r ∧
      (y.first, y.second) :: r.entries = right.entries ∧ r.Sums := by
  obtain ⟨-, hl, hr⟩ := hsums
  have hsib : ∀ p ∈ [Parent.of_right left n], p.sibling.Sums := List.forall_mem_singleton.2 hl
  obtain ⟨e, rest, hentries, hfocus⟩ := focus_subtreeMin right hright hr _ hsib
  obtain ⟨l, y, r, hroot, he, -, hpost, -, -, hrs⟩ := hfocus.splay
  have hrises : Rises left (n.first, n.second) (right.subtreeMin ([] ++ [.of_right left n])) :=
    rises_subtreeMin right hright [] (List.forall_mem_nil _)
  obtain ⟨n', y', r', htop, -⟩ := splay_invariant (fun _ hs => Rises.step hs) hrises
  rw [nil_append, hroot] at htop
  cases htop
  refine ⟨n', y, r, hroot, ?_, hrs⟩
  rw [he, hpost, hentries]
  simp [after]

end Sums

/-! ## The way down -/

variable [LinearOrder K] {key : K} {l₁ l₂ : List (K × V)} {e : K × V}

def Sorted (l : List (K × V)) : Prop := l.Pairwise fun a b => a.1 < b.1

def below (key : K) (l : List (K × V)) : List (K × V) := l.filter fun e => e.1 < key

def above (key : K) (l : List (K × V)) : List (K × V) := l.filter fun e => key < e.1

theorem Sorted.parts (h : Sorted (l₁ ++ e :: l₂)) : Sorted l₁ ∧ Sorted l₂ ∧ (∀ a ∈ l₁, a.1 < e.1) ∧ ∀ a ∈ l₂, e.1 < a.1 := by
  obtain ⟨h1, h2, h12⟩ := List.pairwise_append.1 h
  obtain ⟨he, h2⟩ := List.pairwise_cons.1 h2
  exact ⟨h1, h2, fun a ha => h12 a ha e mem_cons_self, he⟩

theorem below_all (h : ∀ a ∈ l₁, a.1 < key) : below key l₁ = l₁ ∧ above key l₁ = [] := by
  constructor
  · exact filter_eq_self.2 fun a ha => decide_eq_true (h a ha)
  · exact filter_eq_nil_iff.2 fun a ha => by simpa using (h a ha).le

theorem above_all (h : ∀ a ∈ l₁, key < a.1) : below key l₁ = [] ∧ above key l₁ = l₁ := by
  constructor
  · exact filter_eq_nil_iff.2 fun a ha => by simpa using (h a ha).le
  · exact filter_eq_self.2 fun a ha => decide_eq_true (h a ha)

section

variable (h : Sorted (l₁ ++ e :: l₂))
include h

theorem Sorted.split_left (hlt : key < e.1) :
    below key (l₁ ++ e :: l₂) = below key l₁ ∧ above key (l₁ ++ e :: l₂) = above key l₁ ++ e :: l₂ := by
  obtain ⟨-, -, -, hgt⟩ := h.parts
  have hall : ∀ a ∈ e :: l₂, key < a.1 := by
    intro a ha
    rcases mem_cons.1 ha with rfl | ha
    · exact hlt
    · exact hlt.trans (hgt a ha)
  obtain ⟨hb, ha⟩ := above_all hall
  unfold below above at *
  rw [filter_append, filter_append, hb, ha, List.append_nil]
  exact ⟨rfl, rfl⟩

theorem Sorted.split_right (hlt : e.1 < key) :
    below key (l₁ ++ e :: l₂) = l₁ ++ e :: below key l₂ ∧ above key (l₁ ++ e :: l₂) = above key l₂ := by
  obtain ⟨-, -, hle, -⟩ := h.parts
  obtain ⟨hb, ha⟩ := below_all fun a ha => (hle a ha).trans hlt
  unfold below above at *
  rw [filter_append, filter_append, hb, ha, List.filter_cons_of_pos (by simpa using hlt),
    filter_cons_of_neg (by simpa using hlt.le)]
  exact ⟨rfl, rfl⟩

theorem Sorted.split_at : below e.1 (l₁ ++ e :: l₂) = l₁ ∧ above e.1 (l₁ ++ e :: l₂) = l₂ := by
  obtain ⟨-, -, hle, hgt⟩ := h.parts
  obtain ⟨hb, ha⟩ := below_all hle
  obtain ⟨hb', ha'⟩ := above_all hgt
  unfold below above at *
  rw [filter_append, filter_append, hb, ha, filter_cons_of_neg (by simp), filter_cons_of_neg (by simp), hb', ha']
  exact ⟨List.append_nil _, rfl⟩

end

theorem Sorted.below_append_above {l : List (K × V)} (h : Sorted l) (hkey : ∀ a ∈ l, a.1 ≠ key) : below key l ++ above key l = l := by
  induction l with
  | nil => rfl
  | cons a l ih =>
    have hsorted : Sorted ([] ++ a :: l) := h
    rcases lt_or_gt_of_ne (hkey a mem_cons_self) with hlt | hlt
    · obtain ⟨hb, ha⟩ := hsorted.split_right hlt
      rw [nil_append] at hb ha
      rw [hb, ha, nil_append, List.cons_append, ih hsorted.parts.2.1 fun b hmem => hkey b (List.mem_cons_of_mem _ hmem)]
    · obtain ⟨hb, ha⟩ := hsorted.split_left hlt
      rw [nil_append] at hb ha
      rw [hb, ha]
      rfl

theorem Sorted.below_cons_above {l : List (K × V)} (h : Sorted l) (hmem : e ∈ l) : below e.1 l ++ e :: above e.1 l = l := by
  obtain ⟨l₁, l₂, rfl⟩ := List.append_of_mem hmem
  obtain ⟨hb, ha⟩ := h.split_at
  rw [hb, ha]

theorem Sorted.insert {l : List (K × V)} (h : Sorted l) (key : K) (v : V) : Sorted (below key l ++ (key, v) :: above key l) := by
  apply List.pairwise_append.2
  refine ⟨h.sublist List.filter_sublist, List.pairwise_cons.2 ⟨?_, h.sublist List.filter_sublist⟩, ?_⟩
  · intro b hb
    exact of_decide_eq_true (mem_filter.1 hb).2
  · intro a ha b hb
    have hlt : a.1 < key := of_decide_eq_true (mem_filter.1 ha).2
    rcases mem_cons.1 hb with rfl | hb
    · exact hlt
    · exact hlt.trans (of_decide_eq_true (mem_filter.1 hb).2)

theorem descend_absent {t : Node K V} (h : Sorted t.entries) (hkey : ∀ a ∈ t.entries, a.1 ≠ key) (path : List (Parent K V)) :
    ∃ path', t.descend key path = (nil, path') ∧ before path' = before path ++ below key t.entries ∧
      after path' = above key t.entries ++ after path := by
  induction t generalizing path with
  | nil => exact ⟨path, rfl, by simp [below, entries], by simp [above, entries]⟩
  | node l x r ihl ihr =>
    rw [entries] at h hkey
    obtain ⟨hl, hr, -, -⟩ := h.parts
    unfold descend
    rcases lt_trichotomy key x.first with hlt | heq | hlt
    · obtain ⟨hb, ha⟩ := h.split_left hlt
      obtain ⟨path', hdesc, hbefore, hafter⟩ := ihl hl (fun a ha => hkey a (by simp [ha])) (.of_left x r :: path)
      rw [if_pos hlt]
      refine ⟨path', hdesc, ?_, ?_⟩
      · rw [hbefore, entries, hb]
        rfl
      · rw [hafter, entries, ha]
        simp [after]
    · exact absurd heq.symm (hkey (x.first, x.second) (by simp))
    · obtain ⟨hb, ha⟩ := h.split_right hlt
      obtain ⟨path', hdesc, hbefore, hafter⟩ := ihr hr (fun a ha => hkey a (by simp [ha])) (.of_right l x :: path)
      rw [if_neg hlt.asymm, if_pos hlt]
      refine ⟨path', hdesc, ?_, ?_⟩
      · rw [hbefore, entries, hb]
        simp [before]
      · rw [hafter, entries, ha]
        rfl

variable [AddCommGroup V]

theorem descend_sums {t : Node K V} (ht : t.Sums) (key : K) {path : List (Parent K V)} (hpath : ∀ p ∈ path, p.sibling.Sums) :
    (t.descend key path).1.Sums ∧ ∀ p ∈ (t.descend key path).2, p.sibling.Sums := by
  induction t generalizing path with
  | nil => exact ⟨ht, hpath⟩
  | node l x r ihl ihr =>
    unfold descend
    split_ifs
    · exact ihl ht.2.1 (forall_mem_cons.2 ⟨ht.2.2, hpath⟩)
    · exact ihr ht.2.2 (forall_mem_cons.2 ⟨ht.2.1, hpath⟩)
    · exact ⟨ht, hpath⟩

theorem descend_present {t : Node K V} (h : Sorted t.entries) (ht : t.Sums) {v : V} (hmem : (key, v) ∈ t.entries)
    {path : List (Parent K V)} (hpath : ∀ p ∈ path, p.sibling.Sums) :
    Focus (before path ++ below key t.entries) (key, v) (above key t.entries ++ after path) (t.descend key path) := by
  induction t generalizing path with
  | nil => cases hmem
  | node l x r ihl ihr =>
    obtain ⟨hl, hr, hle, hgt⟩ := h.parts
    unfold descend
    rcases lt_trichotomy key x.first with hlt | rfl | hlt
    · obtain ⟨hb, ha⟩ := h.split_left hlt
      have hmem' : (key, v) ∈ l.entries := by
        rcases mem_append.1 hmem with hm | hm
        · exact hm
        · rcases mem_cons.1 hm with heq | hm
          · exact absurd (congrArg Prod.fst heq) hlt.ne
          · exact absurd (hgt _ hm) hlt.asymm
      have hpath' : ∀ p ∈ .of_left x r :: path, p.sibling.Sums := forall_mem_cons.2 ⟨ht.2.2, hpath⟩
      rw [if_pos hlt, entries, hb, ha]
      simpa [before, after] using ihl hl ht.2.1 hmem' hpath'
    · obtain ⟨hb, ha⟩ := h.split_at
      have hv : v = x.second := by
        rcases mem_append.1 hmem with hm | hm
        · exact absurd (hle _ hm) (lt_irrefl _)
        · rcases mem_cons.1 hm with heq | hm
          · exact congrArg Prod.snd heq
          · exact absurd (hgt _ hm) (lt_irrefl _)
      rw [if_neg (lt_irrefl _), if_neg (lt_irrefl _), entries, hb, ha, hv]
      exact ⟨⟨l, x, r, rfl, rfl, rfl, rfl⟩, ht, hpath⟩
    · obtain ⟨hb, ha⟩ := h.split_right hlt
      have hmem' : (key, v) ∈ r.entries := by
        rcases mem_append.1 hmem with hm | hm
        · exact absurd (hle _ hm) hlt.asymm
        · rcases mem_cons.1 hm with heq | hm
          · exact absurd (congrArg Prod.fst heq) hlt.ne'
          · exact hm
      have hpath' : ∀ p ∈ .of_right l x :: path, p.sibling.Sums := forall_mem_cons.2 ⟨ht.2.1, hpath⟩
      rw [if_neg hlt.asymm, if_pos hlt, entries, hb, ha]
      simpa [before, after] using ihr hr ht.2.2 hmem' hpath'

theorem getDistance_node (key : K) (l r : Node K V) (x : Item K V) :
    (node l x r).getDistance key =
      if key > x.first then r.getDistance key
      else if key = x.first then x.sum - l.sum
      else l.getDistance key + x.sum - l.sum := by
  cases l <;> simp [Node.getDistance, Node.sum]

theorem getDistance_eq {t : Node K V} (h : Sorted t.entries) (ht : t.Sums) (key : K) :
    t.getDistance key = ((t.entries.filter fun e => key ≤ e.1).map Prod.snd).sum := by
  induction t with
  | nil => rfl
  | node l x r ihl ihr =>
    obtain ⟨hl, hr, hle, hgt⟩ := h.parts
    obtain ⟨hsum, hls, hrs⟩ := ht
    have hrest : ∀ a ∈ (x.first, x.second) :: r.entries, x.first ≤ a.1 := by
      intro a ha
      rcases mem_cons.1 ha with rfl | ha
      · exact le_rfl
      · exact (hgt a ha).le
    rw [getDistance_node, entries, filter_append]
    split_ifs with hlt heq
    · have hskip : l.entries.filter (fun e => key ≤ e.1) = [] :=
        filter_eq_nil_iff.2 fun a ha => by simpa using (hle a ha).trans hlt
      rw [hskip, nil_append, filter_cons_of_neg (by simpa using hlt)]
      exact ihr hr hrs
    · have hskip : l.entries.filter (fun e => key ≤ e.1) = [] :=
        filter_eq_nil_iff.2 fun a ha => by simpa [heq] using hle a ha
      have hkeep : ((x.first, x.second) :: r.entries).filter (fun e => key ≤ e.1) = (x.first, x.second) :: r.entries :=
        filter_eq_self.2 fun a ha => decide_eq_true (heq ▸ hrest a ha)
      rw [hskip, hkeep, nil_append, map_cons, sum_cons, ← hrs.sum_eq, hsum]
      abel
    · have hkeep : ((x.first, x.second) :: r.entries).filter (fun e => key ≤ e.1) = (x.first, x.second) :: r.entries :=
        filter_eq_self.2 fun a ha => decide_eq_true ((not_lt.1 hlt).trans (hrest a ha))
      rw [hkeep, List.map_append, List.sum_append, map_cons, sum_cons, ← hrs.sum_eq, ihl hl hls, hsum]
      abel

end CacheSim.Splay

namespace CacheSim.SplayTree

open Splay Splay.Node

variable {K V : Type} [LinearOrder K] [AddCommGroup V] {t : SplayTree K V} {l : List (K × V)} {key : K}

structure Holds (t : SplayTree K V) (l : List (K × V)) : Prop where
  entries : t.root_.entries = l
  sums : t.root_.Sums
  sorted : Sorted l
  count : t.node_count_ = UInt32.ofNat l.length

theorem holds_empty : Holds ({} : SplayTree K V) [] := ⟨rfl, trivial, List.Pairwise.nil, rfl⟩

section

variable (h : Holds t l)
include h

theorem Holds.getDistance (key : K) :
    t.getDistance key = ((l.filter fun e => key ≤ e.1).map Prod.snd).sum := by
  rw [SplayTree.getDistance, getDistance_eq (h.entries ▸ h.sorted) h.sums, h.entries]

theorem Holds.insert (hkey : ∀ a ∈ l, a.1 ≠ key) (val : V) :
    Holds (t.insert key val) (below key l ++ (key, val) :: above key l) := by
  obtain ⟨rfl, hsums, hsorted, hcount⟩ := h
  obtain ⟨path, hdesc, hbefore, hafter⟩ := descend_absent hsorted hkey []
  have hsib := (descend_sums hsums key (List.forall_mem_nil _)).2
  rw [hdesc] at hsib
  rw [before, List.nil_append] at hbefore
  rw [after, List.append_nil] at hafter
  have hfocus : Focus (before path) (key, val) (after path) (node nil { first := key, second := val, sum := val, size := 1 } nil, path) :=
    ⟨⟨nil, _, nil, rfl, rfl, List.append_nil _, rfl⟩, ⟨by simp [Node.sum], trivial, trivial⟩, hsib⟩
  obtain ⟨l, it, r, hroot, he, hl, hr, hs⟩ := hfocus.splay
  have hinsert : t.insert key val =
      { t with root_ := node l it r, node_count_ := t.node_count_ + 1, sum := t.sum + val } := by
    rw [SplayTree.insert, hdesc, ← hroot]
  rw [hinsert]
  refine ⟨?_, hs, hsorted.insert key val, ?_⟩
  · rw [Node.entries, he, hl, hr, hbefore, hafter]
  · have hlen := congrArg List.length (hsorted.below_append_above hkey)
    rw [List.length_append] at hlen
    rw [hcount, List.length_append, List.length_cons, ← Nat.add_assoc, hlen, UInt32.ofNat_add]
    rfl

/-- The root is removed from a tree of at most `2 ^ 32` nodes: a count of `2 ^ 32 + 1` would be taken for the last node. -/
theorem Holds.remove {left right : Node K V} {n : Item K V} (hroot : t.root_ = node left n right)
    (hlen : l.length ≤ 2 ^ 32) : ∃ t', t.remove = some t' ∧ Holds t' (left.entries ++ right.entries) := by
  obtain ⟨rfl, hsums, hsorted, hcount⟩ := h
  rw [hroot] at hsums hsorted hcount hlen
  have hsorted' : Sorted (left.entries ++ right.entries) :=
    hsorted.sublist ((List.Sublist.refl _).append (List.sublist_cons_self _ _))
  have hcount' : t.node_count_ - 1 = UInt32.ofNat (left.entries ++ right.entries).length := by
    rw [hcount, Node.entries, List.length_append, List.length_cons, ← Nat.add_assoc, UInt32.ofNat_add, List.length_append]
    exact UInt32.add_sub_cancel _ _
  have hm : (left.entries ++ right.entries).length < 2 ^ 32 := by
    rw [Node.entries, List.length_append, List.length_cons] at hlen
    rw [List.length_append]
    omega
  unfold SplayTree.remove
  rw [hroot]
  dsimp only
  split_ifs with hzero
  · have hnil : left.entries ++ right.entries = [] := by
      rw [hcount', ← UInt32.toNat_inj, UInt32.toNat_ofNat_of_lt' hm] at hzero
      exact List.eq_nil_of_length_eq_zero hzero
    exact ⟨_, rfl, hnil.symm, trivial, hsorted', hcount'⟩
  · have hne : left.entries ++ right.entries ≠ [] := by
      intro hnil
      rw [hcount', hnil] at hzero
      exact hzero rfl
    match left, right with
    | nil, nil => exact absurd rfl hne
    | nil, node rl x rr => exact ⟨_, rfl, rfl, hsums.2.2, hsorted', hcount'⟩
    | node ll x lr, nil =>
      exact ⟨_, rfl, by simp [Node.entries], sums_maintain hsums.2.1.2.1 hsums.2.1.2.2, hsorted', hcount'⟩
    | node ll x lr, node rl y rr =>
      obtain ⟨n', z, r, hsplay, hentries, hr⟩ := join_children hsums (by simp)
      dsimp only
      rw [hsplay]
      refine ⟨_, rfl, ?_, sums_maintain hsums.2.1 hr, hsorted', hcount'⟩
      rw [entries_maintain, Node.entries, hentries]

theorem Holds.erase {v : V} (hmem : (key, v) ∈ l) (hlen : l.length ≤ 2 ^ 32) :
    ∃ t', t.erase key = some t' ∧ Holds t' (below key l ++ above key l) := by
  obtain ⟨rfl, hsums, hsorted, hcount⟩ := h
  have hfocus := descend_present hsorted hsums hmem (List.forall_mem_nil _)
  rw [before, after, List.nil_append, List.append_nil] at hfocus
  rcases hdesc : t.root_.descend key [] with ⟨x, path⟩
  rw [hdesc] at hfocus
  obtain ⟨l0, x0, r0, hx, -⟩ := hfocus.root
  subst hx
  obtain ⟨left, n, right, hsplay, he, hl, hr, hs⟩ := hfocus.splay
  have hfind : t.find_ key = ({ t with root_ := node left n right }, true) := by
    rw [find_, hdesc, ← hsplay]
  have hholds : Holds { t with root_ := node left n right } t.root_.entries := by
    refine ⟨?_, hs, hsorted, hcount⟩
    rw [Node.entries, he, hl, hr]
    exact hsorted.below_cons_above hmem
  rw [SplayTree.erase, hfind, ← hl, ← hr]
  exact hholds.remove rfl hlen

end

end CacheSim.SplayTree
