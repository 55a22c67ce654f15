import CacheSim.Lib.Chain
import Mathlib.Data.Option.Basic

/-!
# Queues of cache objects (`cacheObj.h`)

Each primitive takes the addresses of the head and of the tail of a queue. `none` is a null pointer that is
dereferenced, or an assertion that fails.
-/

namespace CacheSim

open List Function

namespace Lib

theorem Linked.head_eq {α : Type} {next : α → Option (Option α)} {head : Option α} {l : List α} (h : Linked next head l) :
    head = l.head? := by
  cases l with
  | nil => exact h
  | cons x l => exact h.1

theorem Linked.concat {α : Type} {next next' : α → Option (Option α)} {head : Option α} {l : List α} {x : α}
    (h : Linked next head l) (hx : next' x = some none) (hlast : ∀ a ∈ l.getLast?, next' a = some (some x))
    (heq : ∀ y ∈ l, l.getLast? ≠ some y → next' y = next y) : Linked next' (l ++ [x]).head? (l ++ [x]) := by
  have hnodup := h.nodup
  induction l generalizing head with
  | nil => exact ⟨rfl, none, hx, rfl⟩
  | cons a l ih =>
    obtain ⟨-, tail, htail, hl⟩ := h
    rw [nodup_cons] at hnodup
    cases l with
    | nil => exact ⟨rfl, some x, hlast a rfl, rfl, none, hx, rfl⟩
    | cons b l =>
      refine ⟨rfl, tail, ?_, ?_⟩
      · rw [heq a (by simp), htail]
        exact fun ha => hnodup.1 (mem_of_mem_getLast? ha)
      · rw [hl.head_eq]
        exact ih hl hlast (fun y hy => heq y (by simp [hy])) hnodup.2

end Lib

open Lib

/-- `queue.next` and `queue.prev` of every object, and `*head` and `*tail` where these are passed. -/
structure Links (α : Type) where
  next : α → Option α
  prev : α → Option α
  head : Option (Option α)
  tail : Option (Option α)

namespace Links

variable {α : Type}

section

variable [DecidableEq α] (q : Links α)

@[simp]
def set_next (x : α) (y : Option α) : Links α := { q with next := update q.next x y }

@[simp]
def set_prev (x : α) (y : Option α) : Links α := { q with prev := update q.prev x y }

@[simp]
def store_next (p y : Option α) : Option (Links α) := p.map fun x => q.set_next x y

@[simp]
def store_prev (p y : Option α) : Option (Links α) := p.map fun x => q.set_prev x y

def link_next (p y : Option α) : Links α := (q.store_next p y).getD q

def link_prev (p y : Option α) : Links α := (q.store_prev p y).getD q

def remove_obj_from_list (cache_obj : α) : Links α :=
  let q := if q.head = some (some cache_obj) then
      { q with head := some (q.next cache_obj) }.link_prev (q.next cache_obj) none else q
  let q := if q.tail = some (some cache_obj) then
      { q with tail := some (q.prev cache_obj) }.link_next (q.prev cache_obj) none else q
  let q := q.link_next (q.prev cache_obj) (q.next cache_obj)
  let q := q.link_prev (q.next cache_obj) (q.prev cache_obj)
  (q.set_prev cache_obj none).set_next cache_obj none

def move_obj_to_tail (cache_obj : α) : Option (Links α) := do
  let head ← q.head
  let tail ← q.tail
  if head = tail then
    guard (cache_obj = head ∧ q.next cache_obj = none ∧ q.prev cache_obj = none)
    return q
  if cache_obj = head then
    let q := { q with head := q.next cache_obj }
    let q ← q.store_prev (q.next cache_obj) none
    let q ← q.store_next tail cache_obj
    return { (q.set_next cache_obj none).set_prev cache_obj tail with tail := some cache_obj }
  if cache_obj = tail then return q
  let q ← q.store_next (q.prev cache_obj) (q.next cache_obj)
  let q ← q.store_prev (q.next cache_obj) (q.prev cache_obj)
  let q ← q.store_next tail cache_obj
  return { (q.set_next cache_obj none).set_prev cache_obj tail with tail := some cache_obj }

def move_obj_to_head (cache_obj : α) : Option (Links α) := do
  let head ← q.head
  if q.tail = some head then
    guard (cache_obj = head ∧ q.next cache_obj = none ∧ q.prev cache_obj = none)
    return q
  if cache_obj = head then return q
  if q.tail = some (some cache_obj) then
    let q ← q.store_next (q.prev cache_obj) (q.next cache_obj)
    let q := { q with tail := q.prev cache_obj }
    let q ← q.store_prev head cache_obj
    return { (q.set_prev cache_obj none).set_next cache_obj head with head := some cache_obj }
  let q ← q.store_next (q.prev cache_obj) (q.next cache_obj)
  let q ← q.store_prev (q.next cache_obj) (q.prev cache_obj)
  let q ← q.store_prev head cache_obj
  return { (q.set_prev cache_obj none).set_next cache_obj head with head := some cache_obj }

def prepend_obj_to_head (cache_obj : α) : Option (Links α) := do
  let head ← q.head
  let q := (q.set_prev cache_obj none).set_next cache_obj head
  let q ← if q.tail = some none then do
      guard (head = none)
      pure { q with tail := some cache_obj }
    else pure q
  return { q.link_prev head cache_obj with head := some cache_obj }

def append_obj_to_tail (cache_obj : α) : Option (Links α) := do
  let tail ← q.tail
  let q := (q.set_next cache_obj none).set_prev cache_obj tail
  let q ← if q.head = some none then do
      guard (tail = none)
      pure { q with head := some cache_obj }
    else pure q
  return { q.link_next tail cache_obj with tail := some cache_obj }

end

/-- `q` holds the objects of `l`, from head to tail. -/
structure Holds (q : Links α) (l : List α) : Prop where
  next : Linked (fun x => some (q.next x)) l.head? l
  prev : Linked (fun x => some (q.prev x)) l.getLast? l.reverse
  head : ∀ p ∈ q.head, p = l.head?
  tail : ∀ p ∈ q.tail, p = l.getLast?

/-- `q'` holds `l`, and the callers that had the head or the tail of `q` have that of `q'`. -/
structure Leaves (q q' : Links α) (l : List α) : Prop where
  holds : q'.Holds l
  head_given : q'.head.isSome = q.head.isSome
  tail_given : q'.tail.isSome = q.tail.isSome

variable {q : Links α} {l l₁ l₂ : List α} {x : α}

theorem Leaves.trans {q1 q2 : Links α} (h1 : q.Leaves q1 l₁) (h2 : q1.Leaves q2 l) : q.Leaves q2 l :=
  ⟨h2.holds, h2.head_given.trans h1.head_given, h2.tail_given.trans h1.tail_given⟩

def flip (q : Links α) : Links α := ⟨q.prev, q.next, q.tail, q.head⟩

theorem Holds.flip (h : q.Holds l) : q.flip.Holds l.reverse := by
  constructor
  · rw [head?_reverse]
    exact h.prev
  · rw [getLast?_reverse, reverse_reverse]
    exact h.next
  · rw [head?_reverse]
    exact h.tail
  · rw [getLast?_reverse]
    exact h.head

theorem Holds.of_flip (h : q.flip.Holds l.reverse) : q.Holds l := by
  have hflip := h.flip
  rw [reverse_reverse] at hflip
  exact hflip

section

variable (h : q.Holds (l₁ ++ x :: l₂))
include h

theorem Holds.next_eq : q.next x = l₂.head? := by
  obtain ⟨mid, -, tail, htail, hl⟩ := h.next.split
  rw [← hl.head_eq]
  simpa using htail

theorem Holds.flip_split : q.flip.Holds (l₂.reverse ++ x :: l₁.reverse) := by
  have hflip := h.flip
  rw [reverse_append, reverse_cons, append_assoc] at hflip
  exact hflip

theorem Holds.prev_eq : q.prev x = l₁.getLast? := by
  rw [← head?_reverse]
  exact h.flip_split.next_eq

end

theorem Holds.nodup (h : q.Holds l) : l.Nodup := h.next.nodup

theorem Holds.notMem (h : q.Holds (l₁ ++ x :: l₂)) : x ∉ l₁ ∧ x ∉ l₂ := by
  have hnodup := nodup_middle.1 h.nodup
  rw [nodup_cons, mem_append, not_or] at hnodup
  exact hnodup.1

theorem Holds.neighbours (h : q.Holds (l₁ ++ x :: l₂)) : q.next x ≠ some x ∧ q.prev x ≠ some x := by
  rw [h.next_eq, h.prev_eq]
  exact ⟨fun hx => h.notMem.2 (mem_of_mem_head? hx), fun hx => h.notMem.1 (mem_of_mem_getLast? hx)⟩

variable [DecidableEq α]

theorem link_next_next (q : Links α) (p y : Option α) (z : α) :
    (q.link_next p y).next z = if p = some z then y else q.next z := by
  rcases p with _ | x
  · rfl
  · simp [link_next, update_apply, eq_comm]

theorem link_prev_flip (q : Links α) (p y : Option α) : q.flip.link_prev p y = (q.link_next p y).flip := by
  cases p <;> rfl

/-! ## Removal -/

theorem remove_eq (hnext : q.next x ≠ some x) (hprev : q.prev x ≠ some x) : q.remove_obj_from_list x =
    { next := update (q.link_next (q.prev x) (q.next x)).next x none
      prev := update (q.link_prev (q.next x) (q.prev x)).prev x none
      head := if q.head = some (some x) then some (q.next x) else q.head
      tail := if q.tail = some (some x) then some (q.prev x) else q.tail } := by
  have hnext' : some x ≠ q.next x := hnext.symm
  have hprev' : some x ≠ q.prev x := hprev.symm
  unfold remove_obj_from_list
  by_cases hhead : q.head = some (some x) <;> by_cases htail : q.tail = some (some x)
  all_goals
    rcases hn : q.next x with _ | n <;> rcases hp : q.prev x with _ | p <;>
      simp_all [link_next, link_prev]

section

variable (h : q.Holds (l₁ ++ x :: l₂))
include h

/-- The code treats both ends of the queue alike. -/
theorem remove_flip : q.flip.remove_obj_from_list x = (q.remove_obj_from_list x).flip := by
  rw [remove_eq h.neighbours.1 h.neighbours.2, remove_eq, link_prev_flip]
  · cases hp : q.prev x <;> cases hn : q.next x <;> simp [flip, hp, hn, link_next, link_prev]
  · exact h.neighbours.2
  · exact h.neighbours.1

theorem Holds.remove_next : Linked (fun y => some ((q.remove_obj_from_list x).next y)) (l₁ ++ l₂).head? (l₁ ++ l₂) := by
  obtain ⟨hbefore, hafter⟩ := h.notMem
  rw [remove_eq h.neighbours.1 h.neighbours.2, h.next_eq, h.prev_eq]
  rcases eq_nil_or_concat' l₁ with rfl | ⟨m, a, rfl⟩
  · obtain ⟨-, tail, -, hl⟩ := h.next
    rw [hl.head_eq] at hl
    apply hl.congr
    intro y hy
    have hne : y ≠ x := ne_of_mem_of_not_mem hy hafter
    simp [link_next, hne]
  · have hx : a ≠ x := ne_of_mem_of_not_mem (by simp) hbefore
    have hnext := h.next_eq
    rw [append_assoc] at h
    have hhead : (m ++ [a] ++ l₂).head? = (m ++ a :: x :: l₂).head? := by
      cases m <;> rfl
    rw [hhead, append_assoc]
    apply h.next.unlink (congrArg some hnext)
    · simp [link_next_next, hx]
    · intro y hya hyx
      simp [link_next_next, hyx, hya.symm]

theorem Holds.remove_head : ∀ p ∈ (q.remove_obj_from_list x).head, p = (l₁ ++ l₂).head? := by
  have hbefore := h.notMem.1
  rw [remove_eq h.neighbours.1 h.neighbours.2, h.next_eq]
  intro p hp
  rcases l₁ with _ | ⟨a, m⟩
  · dsimp only at hp
    split_ifs at hp with hx
    · exact (Option.some.inj hp).symm
    · rw [h.head p hp] at hp
      exact absurd hp hx
  · have hx : q.head ≠ some (some x) := by
      intro hx
      have ha := h.head _ hx
      simp_all
    rw [if_neg hx] at hp
    exact h.head p hp

theorem Holds.remove : q.Leaves (q.remove_obj_from_list x) (l₁ ++ l₂) := by
  have hnext := h.flip_split.remove_next
  have hhead := h.flip_split.remove_head
  rw [remove_flip h, ← reverse_append, head?_reverse] at hnext hhead
  refine ⟨⟨h.remove_next, hnext, h.remove_head, hhead⟩, ?_, ?_⟩
  all_goals
    rw [remove_eq h.neighbours.1 h.neighbours.2]
    dsimp only
    split_ifs with hx <;> simp [hx]

end

/-! ## Insertion -/

theorem append_eq {t : Option α} (ht : q.tail = some t) (hempty : q.head = some none → t = none) :
    q.append_obj_to_tail x = some
      { next := ((q.set_next x none).link_next t x).next
        prev := update q.prev x t
        head := if q.head = some none then some (some x) else q.head
        tail := some (some x) } := by
  unfold append_obj_to_tail
  by_cases hhead : q.head = some none
  · cases hempty hhead
    simp [ht, hhead, link_next]
  · cases t <;> simp [ht, hhead, link_next]

theorem Holds.append (h : q.Holds l) (hx : x ∉ l) (htail : q.tail.isSome) :
    ∃ q', q.append_obj_to_tail x = some q' ∧ q.Leaves q' (l ++ [x]) := by
  obtain ⟨t, ht⟩ := Option.isSome_iff_exists.1 htail
  have hlast := h.tail t ht
  have hempty : q.head = some none → t = none := by
    intro hhead
    have hnil := h.head none hhead
    rw [hlast, head?_eq_none_iff.1 hnil.symm]
    rfl
  refine ⟨_, append_eq ht hempty, ⟨?_, ?_, ?_, ?_⟩, ?_, ?_⟩
  · have hends : l.getLast? ≠ some x := fun hend => hx (mem_of_mem_getLast? hend)
    apply h.next.concat
    · simp [link_next_next, hlast, hends]
    · intro a ha
      simp [link_next_next, hlast, Option.mem_def.1 ha]
    · intro y hy hend
      simp [link_next_next, hlast, hend, ne_of_mem_of_not_mem hy hx]
  · have hprev := h.prev
    rw [getLast?_concat, reverse_concat]
    refine ⟨rfl, t, by simp, ?_⟩
    rw [hlast]
    apply hprev.congr
    intro y hy
    simp [ne_of_mem_of_not_mem (mem_reverse.1 hy) hx]
  · intro p hp
    split_ifs at hp with hhead
    · have hnil := head?_eq_none_iff.1 (h.head none hhead).symm
      subst hnil
      exact (Option.some.inj hp).symm
    · have heq := h.head p hp
      cases l with
      | nil =>
        rw [heq] at hp
        exact absurd hp hhead
      | cons a l => exact heq
  · simp
  · split_ifs with hhead <;> simp [hhead]
  · simp [ht]

theorem prepend_flip (q : Links α) (x : α) : q.flip.prepend_obj_to_head x = (q.append_obj_to_tail x).map flip := by
  rcases q with ⟨next, prev, head, _ | _ | t⟩
  · rfl
  all_goals
    by_cases hhead : head = some none <;>
      simp [prepend_obj_to_head, append_obj_to_tail, flip, hhead, failure, link_next, link_prev]

theorem prepend_eq {p : Option α} (hp : q.head = some p) (hempty : q.tail = some none → p = none) :
    q.prepend_obj_to_head x = some
      { next := update q.next x p
        prev := ((q.set_prev x none).link_prev p x).prev
        head := some (some x)
        tail := if q.tail = some none then some (some x) else q.tail } := by
  have heq := prepend_flip q.flip x
  rw [append_eq hp hempty] at heq
  apply heq.trans
  cases p <;> rfl

theorem Holds.prepend (h : q.Holds l) (hx : x ∉ l) (hhead : q.head.isSome) :
    ∃ q', q.prepend_obj_to_head x = some q' ∧ q.Leaves q' (x :: l) := by
  have hx' : x ∉ l.reverse := by
    rw [mem_reverse]
    exact hx
  obtain ⟨q', hq', h'⟩ := h.flip.append hx' hhead
  have heq := prepend_flip q.flip x
  rw [hq'] at heq
  refine ⟨q'.flip, heq, ?_, h'.tail_given, h'.head_given⟩
  apply Holds.of_flip
  rw [reverse_cons]
  exact h'.holds

/-! ## Moves -/

theorem Holds.move_head_eq {c : α} (h : q.Holds (c :: l₁ ++ x :: l₂)) (hhead : q.head = some (some c))
    (htail : q.tail = none → l₂ ≠ []) :
    q.move_obj_to_head x = (q.remove_obj_from_list x).prepend_obj_to_head x := by
  have hnext := h.next_eq
  have hprev := h.prev_eq
  have hlast := h.tail
  obtain ⟨hbefore, hafter⟩ := h.notMem
  obtain ⟨a, ha⟩ : ∃ a, (c :: l₁).getLast? = some a := ⟨_, getLast?_cons⟩
  rw [ha] at hprev
  have hx : x ≠ c ∧ x ≠ a := ⟨(ne_of_mem_of_not_mem (by simp) hbefore).symm,
    (ne_of_mem_of_not_mem (mem_of_mem_getLast? ha) hbefore).symm⟩
  have hcomm (f : α → Option α) (v w : Option α) := update_comm hx.1 v w f
  rw [remove_eq h.neighbours.1 h.neighbours.2, prepend_eq (p := some c)]
  · rcases l₂ with _ | ⟨n, r⟩
    · obtain ⟨t, ht⟩ := Option.ne_none_iff_exists'.1 fun hnone => htail hnone rfl
      have htx := hlast t ht
      rw [getLast?_concat] at htx
      cases htx
      simp [move_obj_to_head, hhead, ht, hnext, hprev, hx.1, hcomm, link_next, link_prev]
    · obtain ⟨e, he⟩ : ∃ e, (n :: r).getLast? = some e := ⟨_, getLast?_cons⟩
      have hmem := mem_of_mem_getLast? he
      have hec : e ≠ c ∧ e ≠ x := by
        refine ⟨?_, ne_of_mem_of_not_mem hmem hafter⟩
        rintro rfl
        have hnodup := h.nodup
        simp_all
      have hends : q.tail = none ∨ q.tail = some (some e) := by
        rcases ht : q.tail with _ | t
        · exact Or.inl rfl
        · rw [hlast t ht, getLast?_append, getLast?_cons, he]
          exact Or.inr rfl
      rcases hends with ht | ht <;>
        simp [move_obj_to_head, hhead, ht, hec, hnext, hprev, hx.1, hx.2, hcomm,
          link_next, link_prev]
  · simp [hhead, hx.1.symm]
  · intro hnone
    dsimp only at hnone
    split_ifs at hnone with ht
    · cases hprev.symm.trans (Option.some.inj hnone)
    · cases hlast _ hnone

section

variable (h : q.Holds (l₁ ++ x :: l₂))
include h

theorem Holds.move_head (hhead : q.head.isSome)
    (htail : q.tail.isSome ∨ l₁ = [] ∨ l₂ ≠ []) :
    ∃ q', q.move_obj_to_head x = some q' ∧ q.Leaves q' (x :: (l₁ ++ l₂)) := by
  obtain ⟨p, hp⟩ := Option.isSome_iff_exists.1 hhead
  have hfirst := h.head p hp
  have hlast := h.tail
  rcases l₁ with _ | ⟨c, m⟩
  · refine ⟨q, ?_, h, rfl, rfl⟩
    have hnext := h.next_eq
    have hprev := h.prev_eq
    rcases l₂ with _ | ⟨n, r⟩
    · simp_all [move_obj_to_head, guard]
    · have hx : q.tail ≠ some (some x) := by
        intro ht
        have hend := (hlast _ ht).symm
        exact (nodup_cons.1 h.nodup).1 (mem_of_mem_getLast? hend)
      simp_all [move_obj_to_head]
  · cases hfirst
    have hnodup := nodup_middle.1 h.nodup
    rw [nodup_cons] at hnodup
    obtain ⟨q', hq', h'⟩ := h.remove.holds.prepend hnodup.1 (h.remove.head_given.trans hhead)
    refine ⟨q', ?_, h.remove.trans h'⟩
    rw [h.move_head_eq hp, hq']
    rintro hnone rfl
    simp [hnone] at htail

/-- With both ends at hand, the two moves mirror each other too. -/
theorem move_flip {p : Option α} (hhead : q.head = some p) (htail : q.tail.isSome) :
    q.flip.move_obj_to_head x = (q.move_obj_to_tail x).map flip := by
  obtain ⟨t, ht⟩ := Option.isSome_iff_exists.1 htail
  obtain ⟨hnext, hprev⟩ := h.neighbours
  unfold move_obj_to_head move_obj_to_tail
  by_cases hends : p = t
  · subst hends
    by_cases hx : some x = p ∧ q.next x = none ∧ q.prev x = none <;> simp [flip, hhead, ht, failure, hx, and_comm]
  have hends' := Ne.symm hends
  by_cases hlast : some x = t
  · subst hlast
    simp [flip, hhead, ht, hends, hends']
  have hnext' := Ne.symm hnext
  have hprev' := Ne.symm hprev
  rcases l₁ with _ | ⟨c, m⟩
  · have hp := h.prev_eq
    cases h.head p hhead
    rcases hn : q.next x with _ | n <;> rcases t with _ | b <;> simp_all [flip]
  · have hc : x ≠ c := (ne_of_mem_of_not_mem (by simp) h.notMem.1).symm
    have hc' := hc.symm
    cases h.head p hhead
    rcases hn : q.next x with _ | n <;> rcases hp : q.prev x with _ | a <;> rcases t with _ | b <;> simp_all [flip]

theorem Holds.move_tail (hhead : q.head.isSome) (htail : q.tail.isSome) :
    ∃ q', q.move_obj_to_tail x = some q' ∧ q.Leaves q' (l₁ ++ l₂ ++ [x]) := by
  obtain ⟨p, hp⟩ := Option.isSome_iff_exists.1 hhead
  obtain ⟨q', hq', h'⟩ := h.flip_split.move_head htail (.inl hhead)
  rw [move_flip h hp htail] at hq'
  obtain ⟨r, hr, rfl⟩ := Option.map_eq_some_iff.1 hq'
  refine ⟨r, hr, ?_, h'.tail_given, h'.head_given⟩
  have hflip := h'.holds.flip
  rw [reverse_cons, reverse_append, reverse_reverse, reverse_reverse] at hflip
  exact hflip

end

/-- The head is asked for where the code reads `*head` without a check, and so is the tail; `move_obj_to_head` reads past a
last object that it takes for an inner one when it is not given the tail. -/
theorem list_primitives (h : q.Holds l) :
    (∀ p, p ∈ q.head ∨ p ∈ q.tail → (p = none ↔ l = [])) ∧
    (∀ x ∈ l, q.Leaves (q.remove_obj_from_list x) (l.erase x)) ∧
    (∀ x ∈ l, q.head.isSome → q.tail.isSome →
      ∃ q', q.move_obj_to_tail x = some q' ∧ q.Leaves q' (l.erase x ++ [x])) ∧
    (∀ x ∈ l, q.head.isSome → (q.tail.isSome ∨ l.head? = some x ∨ l.getLast? ≠ some x) →
      ∃ q', q.move_obj_to_head x = some q' ∧ q.Leaves q' (x :: l.erase x)) ∧
    (∀ x ∉ l, q.head.isSome → ∃ q', q.prepend_obj_to_head x = some q' ∧ q.Leaves q' (x :: l)) ∧
    ∀ x ∉ l, q.tail.isSome → ∃ q', q.append_obj_to_tail x = some q' ∧ q.Leaves q' (l ++ [x]) := by
  have hsplit {x : α} (hx : x ∈ l) : ∃ l₁ l₂, l = l₁ ++ x :: l₂ ∧ l.erase x = l₁ ++ l₂ := by
    obtain ⟨l₁, l₂, -, hl, herase⟩ := exists_erase_eq hx
    exact ⟨l₁, l₂, hl, herase⟩
  refine ⟨?_, ?_, ?_, ?_, fun x => h.prepend, fun x => h.append⟩
  · rintro p (hp | hp)
    · rw [h.head p hp, head?_eq_none_iff]
    · rw [h.tail p hp, getLast?_eq_none_iff]
  · intro x hx
    obtain ⟨l₁, l₂, rfl, herase⟩ := hsplit hx
    rw [herase]
    exact h.remove
  · intro x hx hhead htail
    obtain ⟨l₁, l₂, rfl, herase⟩ := hsplit hx
    rw [herase]
    exact h.move_tail hhead htail
  · intro x hx hhead htail
    obtain ⟨l₁, l₂, rfl, herase⟩ := hsplit hx
    rw [herase]
    apply h.move_head hhead
    rcases htail with htail | hfirst | hlast
    · exact .inl htail
    · cases l₁ with
      | nil => exact .inr (.inl rfl)
      | cons c m =>
        cases hfirst
        exact absurd (by simp) h.notMem.1
    · refine .inr (.inr ?_)
      rintro rfl
      simp at hlast

theorem list_primitives_of_two : ∃ q', (Links.mk (fun x => if x = 1 then some 2 else none) (fun x => if x = 2 then some 1 else none)
    (some (some 1)) (some (some 2))).move_obj_to_tail 1 = some q' ∧ q'.Holds [2, 1] := by
  obtain ⟨q', hq', h'⟩ := (list_primitives (l := [1, 2])
    (q := ⟨fun x => if x = 1 then some 2 else none, fun x => if x = 2 then some 1 else none, some (some 1), some (some 2)⟩)
    ⟨by simp [Linked], by simp [Linked], by simp, by simp⟩).2.2.1 1 (by simp) rfl rfl
  exact ⟨q', hq', h'.holds⟩

end Links

end CacheSim
