import CacheSim.SplayTree.Proofs
import CacheSim.Lib.Loop
import Mathlib.Data.UInt

/-!
# The sizes of a splay tree

A size is a sum of ones: if each value is taken for 1 and each sum for the size, the operations go on as they do.
-/

namespace CacheSim.Splay

open Node

variable {K V : Type}

def Item.counted (x : Item K V) : Item K UInt32 := { first := x.first, second := 1, sum := x.size, size := x.size }

def Node.counted : Node K V → Node K UInt32
  | nil => nil
  | node l x r => node l.counted x.counted r.counted

def Parent.counted : Parent K V → Parent K UInt32
  | .of_left p r => .of_left p.counted r.counted
  | .of_right l p => .of_right l.counted p.counted

theorem entries_counted (t : Node K V) : t.counted.entries = t.entries.map fun e => (e.1, 1) := by
  induction t with
  | nil => rfl
  | node l x r ihl ihr => simp [counted, entries, ihl, ihr, Item.counted]

@[simp] theorem size_counted (t : Node K V) : t.counted.size = t.size := by cases t <;> rfl

@[simp] theorem sum_counted (t : Node K V) : t.counted.sum = t.size := by cases t <;> rfl

section

variable [AddCommGroup V]

@[simp] theorem counted_maintain (t : Node K V) : t.maintain.counted = t.counted.maintain := by
  cases t <;> simp [maintain, counted, Item.counted]

@[simp] theorem counted_leftRotate (t : Node K V) : t.leftRotate.counted = t.counted.leftRotate := by
  rcases t with - | ⟨l, x, - | ⟨rl, y, rr⟩⟩ <;> simp [leftRotate, counted]

@[simp] theorem counted_rightRotate (t : Node K V) : t.rightRotate.counted = t.counted.rightRotate := by
  rcases t with - | ⟨- | ⟨ll, y, lr⟩, x, r⟩ <;> simp [rightRotate, counted]

@[simp] theorem counted_maintain_parent (x : Node K V) (path : List (Parent K V)) :
    (maintain_parent x path).map Parent.counted = maintain_parent x.counted (path.map Parent.counted) := by
  rcases path with - | ⟨⟨p, r⟩ | ⟨l, p⟩, path⟩ <;>
    simp [maintain_parent, Parent.maintain, Parent.counted, Item.counted]

def counted_at (s : Node K V × List (Parent K V)) : Node K UInt32 × List (Parent K UInt32) := (s.1.counted, s.2.map Parent.counted)

theorem counted_splay_step (s : Node K V × List (Parent K V)) : counted_at (splay_step s) = splay_step (counted_at s) := by
  obtain ⟨x, path⟩ := s
  match path with
  | [] => rfl
  | [.of_left _ _] | [.of_right _ _] => simp [counted_at, splay_step, counted, Parent.counted]
  | .of_left _ _ :: .of_left _ _ :: path | .of_left _ _ :: .of_right _ _ :: path
  | .of_right _ _ :: .of_left _ _ :: path | .of_right _ _ :: .of_right _ _ :: path =>
    simp [counted_at, splay_step, counted, Parent.counted]

@[simp] theorem counted_splay (x : Node K V) (path : List (Parent K V)) :
    (splay x path).counted = splay x.counted (path.map Parent.counted) := by
  have hsteps := (Function.Semiconj.iterate_right (fun s => counted_splay_step s) path.length) (x, path)
  unfold splay
  rw [List.length_map]
  exact congrArg Prod.fst hsteps

end

theorem counted_subtreeMin (t : Node K V) (path : List (Parent K V)) :
    counted_at (t.subtreeMin path) = t.counted.subtreeMin (path.map Parent.counted) := by
  induction t generalizing path with
  | nil => rfl
  | node l x r ihl _ =>
    cases l with
    | nil => rfl
    | node ll y lr => exact ihl (.of_left x r :: path)

theorem counted_descend [LinearOrder K] (key : K) (t : Node K V) (path : List (Parent K V)) :
    counted_at (t.descend key path) = t.counted.descend key (path.map Parent.counted) := by
  induction t generalizing path with
  | nil => rfl
  | node l x r ihl ihr =>
    rw [counted, descend, descend]
    show _ = if key < x.first then _ else if key > x.first then _ else _
    split_ifs
    · exact ihl (.of_left x r :: path)
    · exact ihr (.of_right l x :: path)
    · rfl

end CacheSim.Splay

namespace CacheSim.SplayTree

open Splay Splay.Node

variable {K V : Type} [LinearOrder K] [AddCommGroup V] {t : SplayTree K V} {l : List (K × V)} {key : K}

def counted (t : SplayTree K V) : SplayTree K UInt32 := { root_ := t.root_.counted, sum := t.node_count_, node_count_ := t.node_count_ }

theorem counted_insert {path : List (Parent K V)} (h : t.root_.descend key [] = (nil, path)) (val : V) :
    (t.insert key val).counted = t.counted.insert key 1 := by
  have hdesc : t.root_.counted.descend key [] = (nil, path.map Parent.counted) := by
    have hcounted := counted_descend key t.root_ []
    rw [h] at hcounted
    exact hcounted.symm
  rw [insert, insert, h, counted, counted, hdesc]
  simp [Node.counted, Item.counted]

theorem counted_find (t : SplayTree K V) (key : K) : ((t.find_ key).1.counted, (t.find_ key).2) = t.counted.find_ key := by
  have hcounted : counted_at (t.root_.descend key []) = t.counted.root_.descend key [] := counted_descend key t.root_ []
  rw [find_, find_]
  rcases hdesc : t.root_.descend key [] with ⟨- | ⟨l, x, r⟩, path⟩
  · rw [hdesc] at hcounted
    rw [← hcounted]
    rfl
  · rw [hdesc] at hcounted
    rw [← hcounted]
    simp [counted_at, counted, Node.counted]

omit [LinearOrder K] in
theorem counted_remove (t : SplayTree K V) : t.remove.map counted = t.counted.remove := by
  obtain ⟨root, sum, count⟩ := t
  unfold remove counted
  cases root with
  | nil => rfl
  | node left n right =>
    simp only
    split_ifs
    · rfl
    · match left, right with
      | nil, nil => rfl
      | nil, node rl x rr => simp [Item.counted, Node.counted]
      | node ll x lr, nil => simp [Item.counted, Node.counted]
      | node ll x lr, node rl y rr =>
        have hmin := counted_subtreeMin (node rl y rr) [.of_right (node ll x lr) n]
        rw [List.map_singleton] at hmin
        simp only [Node.counted, Parent.counted] at hmin ⊢
        rw [← hmin]
        rcases (node rl y rr).subtreeMin [.of_right (node ll x lr) n] with ⟨nxt, path⟩
        simp only [counted_at]
        rw [← counted_splay]
        rcases splay nxt path with - | ⟨- | ⟨- | ⟨l, z, r⟩, y', r''⟩, y, r'⟩ <;> simp [Item.counted, Node.counted]

theorem counted_erase (t : SplayTree K V) (key : K) : (t.erase key).map counted = t.counted.erase key := by
  have hfind := counted_find t key
  rw [erase, erase, ← hfind]
  rcases t.find_ key with ⟨t', _ | _⟩
  · rfl
  · exact counted_remove t'

end CacheSim.SplayTree

namespace CacheSim.Splay

open Node

variable {K V : Type} [AddCommGroup V] {t : Node K V}

def Node.Totals : Node K V → Prop
  | nil => True
  | node l x r => x.size.toNat = (node l x r).entries.length ∧ x.sum = ((node l x r).entries.map Prod.snd).sum ∧ l.Totals ∧ r.Totals

omit [AddCommGroup V] in
theorem size_eq (h : t.counted.Sums) : t.size = UInt32.ofNat t.entries.length := by
  have hones : ∀ l : List (K × V), ((l.map fun e => (e.1, (1 : UInt32))).map Prod.snd).sum = UInt32.ofNat l.length := by
    intro l
    induction l with
    | nil => rfl
    | cons e l ih =>
      simp only [List.map_cons, List.sum_cons, List.length_cons, ih, UInt32.ofNat_add]
      exact add_comm _ _
  rw [← sum_counted, h.sum_eq, entries_counted, hones]

theorem totals_of_sums (hs : t.Sums) (hc : t.counted.Sums) (hlen : t.entries.length < 2 ^ 32) : t.Totals := by
  induction t with
  | nil => trivial
  | node l x r ihl ihr =>
    have hsize : x.size = UInt32.ofNat (node l x r).entries.length := size_eq hc
    have hparts : (node l x r).entries.length = l.entries.length + (r.entries.length + 1) := by
      rw [entries, List.length_append, List.length_cons]
    refine ⟨?_, hs.sum_eq, ihl hs.2.1 hc.2.1 (by omega), ihr hs.2.2 hc.2.2 (by omega)⟩
    rw [hsize, UInt32.toNat_ofNat_of_lt' hlen]

theorem Node.Totals.sum_eq (h : t.Totals) : t.sum = (t.entries.map Prod.snd).sum := by
  cases t with
  | nil => rfl
  | node l x r => exact h.2.1

theorem Node.Totals.length_lt (h : t.Totals) : t.entries.length < 2 ^ 32 := by
  cases t with
  | nil => exact Nat.two_pow_pos 32
  | node l x r =>
    rw [← h.1]
    exact x.size.toNat_lt

end CacheSim.Splay

/-!
## The sequences of operations

A tree keeps its sums as long as no value is replaced by another one, for then they stay as they were.
-/

namespace CacheSim.SplayTree

open Lib Splay Splay.Node

variable {K V : Type} [LinearOrder K] [AddCommGroup V] {t : SplayTree K V} {l : List (K × V)} {key : K}

inductive Op (K V : Type) where
  | insert (key : K) (val : V)
  | erase (key : K)
  | find (key : K)
  | getDistance (key : K)

def find (t : SplayTree K V) (key : K) : SplayTree K V × Bool :=
  match t.find_ key with
  | (t, true) => t.find_ key
  | (t, false) => (t, false)

def call (t : SplayTree K V) : Op K V → Option (SplayTree K V)
  | .insert key val => some (t.insert key val)
  | .erase key => t.erase key
  | .find key => some (t.find key).1
  | .getDistance _ => some t

def Op.apply (l : List (K × V)) : Op K V → List (K × V)
  | .insert key val => below key l ++ (key, val) :: above key l
  | .erase key => below key l ++ above key l
  | .find _ => l
  | .getDistance _ => l

/-- A search tree over the live keys with the counts and totals of its subtrees. -/
structure Right (t : SplayTree K V) (l : List (K × V)) : Prop where
  entries : t.root_.entries = l
  sorted : Sorted l
  totals : t.root_.Totals
  distance : ∀ key, t.getDistance key = ((l.filter fun e => key ≤ e.1).map Prod.snd).sum

theorem Holds.find_absent (h : Holds t l) (hkey : ∀ a ∈ l, a.1 ≠ key) : t.find_ key = (t, false) := by
  obtain ⟨rfl, -, hsorted, -⟩ := h
  obtain ⟨path, hdesc, -⟩ := descend_absent hsorted hkey []
  rw [find_, hdesc]

theorem Holds.find_present (h : Holds t l) {v : V} (hmem : (key, v) ∈ l) :
    (t.find_ key).2 = true ∧ Holds (t.find_ key).1 l := by
  obtain ⟨rfl, hsums, hsorted, hcount⟩ := h
  have hfocus := descend_present hsorted hsums hmem (List.forall_mem_nil _)
  rw [before, after, List.nil_append, List.append_nil] at hfocus
  rcases hdesc : t.root_.descend key [] with ⟨x, path⟩
  rw [hdesc] at hfocus
  obtain ⟨l0, x0, r0, rfl, -⟩ := hfocus.root
  obtain ⟨left, n, right, hsplay, he, hl, hr, hs⟩ := hfocus.splay
  have hfind : t.find_ key = ({ t with root_ := node left n right }, true) := by rw [find_, hdesc, ← hsplay]
  rw [hfind]
  refine ⟨rfl, ?_, hs, hsorted, hcount⟩
  rw [Node.entries, he, hl, hr]
  exact hsorted.below_cons_above hmem

omit [LinearOrder K] [AddCommGroup V] in
theorem present_or_absent (l : List (K × V)) (key : K) : (∃ v, (key, v) ∈ l) ∨ ∀ a ∈ l, a.1 ≠ key := by
  by_cases h : ∃ v, (key, v) ∈ l
  · exact .inl h
  · right
    rintro ⟨k, v⟩ ha rfl
    exact h ⟨v, ha⟩

theorem Holds.find_ (h : Holds t l) (key : K) : Holds (t.find_ key).1 l := by
  rcases present_or_absent l key with ⟨v, hmem⟩ | hkey
  · exact (h.find_present hmem).2
  · rwa [h.find_absent hkey]

omit [LinearOrder K] [AddCommGroup V] in
theorem entries_plug (x : Node K V) (path : List (Parent K V)) : (plug x path).entries = before path ++ x.entries ++ after path := by
  induction path generalizing x with
  | nil => simp [plug, before, after]
  | cons p path ih =>
    have hlink := ih (p.link x)
    rw [plug, List.foldl_cons, ← plug, hlink]
    cases p <;> simp [Parent.link, Node.entries, before, after]

omit [LinearOrder K] in
theorem sum_plug {x y : Node K V} (h : x.sum = y.sum) (path : List (Parent K V)) : (plug x path).sum = (plug y path).sum := by
  induction path generalizing x y with
  | nil => exact h
  | cons p path ih =>
    have hlink : (p.link x).sum = (p.link y).sum := by cases p <;> rfl
    exact ih hlink

omit [AddCommGroup V] in
theorem plug_descend (key : K) (t : Node K V) (path : List (Parent K V)) :
    plug (t.descend key path).1 (t.descend key path).2 = plug t path := by
  induction t generalizing path with
  | nil => rfl
  | node l x r ihl ihr =>
    unfold descend
    split_ifs
    · exact ihl (.of_left x r :: path)
    · exact ihr (.of_right l x :: path)
    · rfl

theorem Holds.insert_present (h : Holds t l) {v : V} (hmem : (key, v) ∈ l) (val : V) :
    (t.insert key val).root_.entries = below key l ++ (key, val) :: above key l ∧ (t.insert key val).root_.sum = t.root_.sum ∧
      t.insert key v = t := by
  obtain ⟨rfl, hsums, hsorted, -⟩ := h
  have hfocus := descend_present hsorted hsums hmem (List.forall_mem_nil _)
  have hwhole := plug_descend key t.root_ []
  rw [before, after, List.nil_append, List.append_nil] at hfocus
  rcases hdesc : t.root_.descend key [] with ⟨x, path⟩
  rw [hdesc] at hfocus hwhole
  obtain ⟨l0, n, r0, rfl, he, hbelow, habove⟩ := hfocus.root
  obtain ⟨rfl, rfl⟩ := Prod.mk.inj he
  have hinsert : ∀ val, t.insert n.first val = { t with root_ := plug (node l0 { n with second := val } r0) path } := by
    intro val
    rw [SplayTree.insert, hdesc]
  refine ⟨?_, ?_, ?_⟩
  · rw [hinsert, ← hbelow, ← habove, entries_plug]
    simp [Node.entries]
  · rw [hinsert, ← show plug (node l0 n r0) path = t.root_ from hwhole]
    exact sum_plug (x := node l0 { n with second := val } r0) (y := node l0 n r0) rfl path
  · rw [hinsert]
    rw [show plug (node l0 n r0) path = t.root_ from hwhole]

/-! ## The states -/

structure Known (t : SplayTree K V) (l : List (K × V)) : Prop where
  holds : Holds t l
  ones : Holds t.counted (l.map fun e => (e.1, 1))
  fits : l.length < 2 ^ 32

theorem known_empty : Known ({} : SplayTree K V) [] := ⟨holds_empty, holds_empty, Nat.two_pow_pos 32⟩

theorem Holds.known {l' : List (K × UInt32)} (h : Holds t l) (hones : Holds t.counted l') (hfits : l.length < 2 ^ 32) : Known t l := by
  have hl' : l' = l.map fun e => (e.1, 1) := by
    rw [← h.entries, ← hones.entries]
    exact entries_counted _
  exact ⟨h, hl' ▸ hones, hfits⟩

section

variable (h : Known t l)
include h

theorem Known.right : Right t l := by
  refine ⟨h.holds.entries, h.holds.sorted, ?_, h.holds.getDistance⟩
  apply totals_of_sums h.holds.sums h.ones.sums
  rw [h.holds.entries]
  exact h.fits

theorem Known.insert (hkey : ∀ a ∈ l, a.1 ≠ key) (val : V) (hfits : l.length + 1 < 2 ^ 32) :
    Known (t.insert key val) (below key l ++ (key, val) :: above key l) := by
  have hnew := h.holds.insert hkey val
  have hkey' : ∀ a ∈ l.map fun e => (e.1, (1 : UInt32)), a.1 ≠ key := List.forall_mem_map.2 hkey
  have hones := h.ones.insert hkey' 1
  obtain ⟨path, hdesc, -⟩ := descend_absent (h.holds.entries ▸ h.holds.sorted) (h.holds.entries ▸ hkey) []
  rw [← counted_insert hdesc val] at hones
  apply hnew.known hones
  have hlen := congrArg List.length (h.holds.sorted.below_append_above hkey)
  simp only [List.length_append, List.length_cons] at hlen ⊢
  omega

theorem Known.find_ (key : K) : Known (t.find_ key).1 l := by
  have hones := h.ones.find_ key
  rw [← counted_find] at hones
  exact (h.holds.find_ key).known hones h.fits

theorem Known.find (key : K) : Known (t.find key).1 l := by
  have hfirst := h.find_ key
  unfold SplayTree.find
  rcases hfind : t.find_ key with ⟨t', _ | _⟩
  · rwa [hfind] at hfirst
  · rw [hfind] at hfirst
    exact hfirst.find_ key

theorem Known.erase (key : K) : ∃ t', t.erase key = some t' ∧ Known t' (below key l ++ above key l) := by
  rcases present_or_absent l key with ⟨v, hmem⟩ | hkey
  · obtain ⟨t', herase, hleft⟩ := h.holds.erase hmem h.fits.le
    have hmem' : (key, (1 : UInt32)) ∈ l.map fun e => (e.1, 1) := List.mem_map.2 ⟨_, hmem, rfl⟩
    obtain ⟨c, hcerase, hones⟩ := h.ones.erase hmem' (by simpa using h.fits.le)
    rw [← counted_erase, herase] at hcerase
    cases hcerase
    refine ⟨t', herase, hleft.known hones ?_⟩
    have hlen := congrArg List.length (h.holds.sorted.below_cons_above hmem)
    have hfits := h.fits
    simp only [List.length_append, List.length_cons] at hlen ⊢
    omega
  · refine ⟨t, ?_, by rwa [h.holds.sorted.below_append_above hkey]⟩
    rw [SplayTree.erase, h.holds.find_absent hkey]

/-! ## The operations -/

/-- An insertion of a key that is there leaves its value; another one leaves fewer than `2 ^ 32` keys. -/
def Fits (l : List (K × V)) : Op K V → Prop
  | .insert key val => (key, val) ∈ l ∨ (∀ a ∈ l, a.1 ≠ key) ∧ l.length + 1 < 2 ^ 32
  | .erase _ => True
  | .find _ => True
  | .getDistance _ => True

instance [DecidableEq V] (l : List (K × V)) (op : Op K V) : Decidable (Fits l op) :=
  match op with
  | .insert key val => inferInstanceAs (Decidable ((key, val) ∈ l ∨ (∀ a ∈ l, a.1 ≠ key) ∧ l.length + 1 < 2 ^ 32))
  | .erase _ => isTrue trivial
  | .find _ => isTrue trivial
  | .getDistance _ => isTrue trivial

theorem Known.call {op : Op K V} (hop : Fits l op) : ∃ t', t.call op = some t' ∧ Known t' (op.apply l) := by
  cases op with
  | insert key val =>
    rcases hop with hmem | ⟨hkey, hfits⟩
    · refine ⟨_, rfl, ?_⟩
      rw [(h.holds.insert_present hmem val).2.2, Op.apply, h.holds.sorted.below_cons_above hmem]
      exact h
    · exact ⟨_, rfl, h.insert hkey val hfits⟩
  | erase key => exact h.erase key
  | find key => exact ⟨_, rfl, h.find key⟩
  | getDistance key => exact ⟨t, rfl, h⟩

theorem Known.fits_of_right {op : Op K V} {t' : SplayTree K V} (hcall : t.call op = some t')
    (hright : Right t' (op.apply l)) : Fits l op := by
  cases op with
  | insert key val =>
    cases hcall
    have htotal := hright.totals.sum_eq
    have hlen := hright.totals.length_lt
    rw [hright.entries] at htotal hlen
    rcases present_or_absent l key with ⟨v, hmem⟩ | hkey
    · left
      rw [(h.holds.insert_present hmem val).2.1, h.holds.sums.sum_eq, h.holds.entries] at htotal
      have hval : v = val := by
        have hold : (l.map Prod.snd).sum = ((below key l ++ (key, v) :: above key l).map Prod.snd).sum := by
          rw [h.holds.sorted.below_cons_above hmem]
        rw [hold] at htotal
        simpa [Op.apply] using htotal
      exact hval ▸ hmem
    · right
      refine ⟨hkey, ?_⟩
      have hparts := congrArg List.length (h.holds.sorted.below_append_above hkey)
      simp only [Op.apply, List.length_append, List.length_cons] at hlen hparts
      omega
  | erase key => trivial
  | find key => trivial
  | getDistance key => trivial

end

def step (s : SplayTree K V × List (K × V)) (op : Op K V) : Option (SplayTree K V × List (K × V)) :=
  (s.1.call op).map fun t => (t, op.apply s.2)

/-- The tree is right as long as no value is replaced by another one. -/
theorem splay_tree_right (h : Reach step (fun s op => Fits s.2 op) (({} : SplayTree K V), []) (t, l)) :
    Right t l ∧ ∀ op, (∃ t', t.call op = some t' ∧ Right t' (op.apply l)) ↔ Fits l op := by
  have hknown : Known t l := by
    apply h.inv (fun s => Known s.1 s.2) ?_ known_empty
    rintro ⟨t, l⟩ op s' hs hop hstep
    obtain ⟨t', hcall, hs'⟩ := Known.call hs hop
    rw [step, hcall] at hstep
    cases hstep
    exact hs'
  refine ⟨hknown.right, fun op => ⟨?_, ?_⟩⟩
  · rintro ⟨t', hcall, hright⟩
    exact hknown.fits_of_right hcall hright
  · intro hop
    obtain ⟨t', hcall, ht'⟩ := hknown.call hop
    exact ⟨t', hcall, ht'.right⟩

theorem splay_tree_right_of_again :
    ∃ s, runs (fun s op => if Fits s.2 op then step s op else none) (({} : SplayTree Nat Int), [])
        [.insert 1 5, .insert 2 7, .insert 1 5, .find 1] = some s ∧ Right s.1 s.2 := by
  exact exists_some (P := fun _ => True) (by decide +kernel) fun s hs _ => (splay_tree_right (Reach.of_checked hs)).1

/-- A value of 5 is replaced by 7, and the distance is still 5. -/
theorem replaced_value_lost :
    (runs step (({} : SplayTree Nat Int), []) [.insert 1 5, .insert 1 7]).map
      (fun s => (s.2, s.1.getDistance 1)) = some ([(1, 7)], 5) := by
  decide

end CacheSim.SplayTree
