import CacheSim.Fifo
import Mathlib.Algebra.Order.Field.Rat
import Mathlib.Data.List.Chain
import Mathlib.Data.List.Sort

/-!
# FIFO with retention (`FIFO_Merge.c`)

An eviction looks at the next objects of the queue and saves pointers to them, from the least valuable on; the calls after it
take their victims from there.
-/

namespace CacheSim.FifoMerge

open Lib List Option

/-- `FIFO_Merge_obj_metadata_t`, and what the rest of the object says. The time of its insertion tells an object from a later
one of the same id. The `int32_t` of `freq` and `last_access_vtime` does not wrap here. -/
structure ObjMd where
  freq : Int := 0
  last_access_vtime : Int
  next_access_vtime : Int
  born : Int

structure Ptr where
  obj_id : ObjId
  born : Int
deriving DecidableEq

/-- `sort_list_node`; the metric is infinite after a division by 0. -/
structure SortListNode where
  metric : WithTop ℚ
  cache_obj : Ptr

inductive RetainPolicy
  | recency
  | frequency
  | belady
  | none
deriving DecidableEq

structure Params where
  n_exam_obj : Nat
  n_keep_obj : Nat
  retain_policy : RetainPolicy := .frequency
  exam_pos : 0 < n_exam_obj
  exam_le : n_exam_obj ≤ 2147483647
  keep_le : n_keep_obj ≤ n_exam_obj

/-- The generator, the rounding of a `double`, and `qsort`. -/
structure Env extends Params where
  next_rand : Nat → Nat
  rnd : ℚ → ℚ
  qsort : List SortListNode → List SortListNode
  qsort_perm : ∀ l, (qsort l).Perm l
  qsort_sorted : ∀ l, (qsort l).Pairwise fun a b => a.metric ≤ b.metric

structure State where
  cache : Fifo ObjMd
  next_to_exam : Option Ptr := none
  metric_list : List SortListNode := []
  pos_in_metric_list : Nat := 2147483647
  /-- the calls of `next_rand` so far -/
  n_rand : Nat := 0

def FIFO_Merge_init (cache_size : Nat) (consider_obj_metadata : Bool) : State where
  cache := { cache_size := cache_size, obj_md_size := if consider_obj_metadata then 4 else 0 }

variable (E : Env)

def Params.n_evict (p : Params) : Nat := p.n_exam_obj - p.n_keep_obj

/-- Also 0 by 0, which is not a number in C, is infinite. -/
def Env.quot (x : WithTop ℚ) (y : Int) : WithTop ℚ := if y = 0 then ⊤ else x.map fun x => E.rnd (x / y)

def belady_metric (n_req : Int) (o : FifoObj ObjMd) : WithTop ℚ :=
  if o.md.next_access_vtime = -1 ∨ o.md.next_access_vtime = 9223372036854775807 then ((-1 : ℚ) : WithTop ℚ)
  else E.quot (E.quot ((1000000000000 : ℚ) : WithTop ℚ) (o.md.next_access_vtime - n_req)) o.obj_size

def freq_metric (n_rand : Nat) (o : FifoObj ObjMd) : WithTop ℚ :=
  let r := E.rnd (((E.next_rand n_rand % 1000 : Nat) : ℚ) / 10000)
  E.quot (E.rnd (1000000 * E.rnd (o.md.freq + r)) : ℚ) o.obj_size

def recency_metric (n_req : Int) (o : FifoObj ObjMd) : WithTop ℚ :=
  E.quot (E.quot ((1000000000000 : ℚ) : WithTop ℚ) (n_req - o.md.last_access_vtime)) o.obj_size

/-- `none` stands for the call of `abort`. -/
def retain_metric (n_req : Int) (n_rand : Nat) (o : FifoObj ObjMd) : Option (WithTop ℚ) :=
  match E.retain_policy with
  | .frequency => some (freq_metric E n_rand o)
  | .recency => some (recency_metric E n_req o)
  | .belady => some (belady_metric E n_req o)
  | .none => none

def ptr (e : Sigma fun _ : ObjId => FifoObj ObjMd) : Ptr := { obj_id := e.1, born := e.2.md.born }

variable (c : Fifo ObjMd)

def queue : List Ptr := (c.q.entries.map ptr).reverse

def prev : List Ptr → Ptr → Option Ptr
  | [], _ => none
  | x :: l, y => if x = y then l.head? else prev l y

def deref (p : Ptr) : Option (FifoObj ObjMd) := (c.q.lookup p.obj_id).filter fun o => o.md.born = p.born

variable (s : State)

def evict_obj (p : Ptr) : Option State := do
  let o ← deref s.cache p
  return { s with cache := s.cache.cache_remove_obj_base p.obj_id o }

/-! ## The policy -/

def FIFO_Merge_find (req : Request) : State × Bool :=
  match s.cache.q.lookup req.obj_id with
  | none => (s, false)
  | some obj =>
    let md := { obj.md with
      freq := obj.md.freq + 1
      last_access_vtime := s.cache.n_req
      next_access_vtime := req.next_access_vtime }
    ({ s with cache := s.cache.set_md req.obj_id obj md }, true)

def FIFO_Merge_insert (req : Request) : State :=
  let md := { last_access_vtime := s.cache.n_req, next_access_vtime := req.next_access_vtime, born := s.cache.n_req }
  { s with cache := s.cache.FIFO_insert req md }

structure Exam where
  cache_obj : Option Ptr
  n_loop : Int := 0
  n_rand : Nat
  metric_list : List SortListNode := []

/-- `assert(n_loop++ <= 2)` counts a second time. -/
def exam_wrap (w : Exam) : Option (Ptr × Int) :=
  match w.cache_obj with
  | some p => some (p, w.n_loop)
  | none => do
    let n_loop := w.n_loop + 1
    if n_loop ≤ 2 then return (← (queue c).head?, n_loop + 1) else none

def exam_step (w : Exam) : Option Exam := do
  let (p, n_loop) ← exam_wrap c w
  let o ← deref c p
  let metric ← retain_metric E c.n_req w.n_rand o
  return {
    cache_obj := prev (queue c) p
    n_loop := n_loop
    n_rand := if E.retain_policy = .frequency then w.n_rand + 1 else w.n_rand
    metric_list := w.metric_list ++ [{ metric := metric, cache_obj := p }] }

def exam (c : Fifo ObjMd) : Nat → Exam → Option Exam
  | 0, w => some w
  | n + 1, w => do exam c n (← exam_step E c w)

/-- The rest of `FIFO_Merge_evict`, when no object is left from the last examination. -/
def evict_anew : Option State := do
  if s.cache.n_obj ≤ E.n_exam_obj then
    evict_obj { s with next_to_exam := none } (← (queue s.cache).head?)
  else
    let w ← exam E s.cache E.n_exam_obj { cache_obj := s.next_to_exam, n_rand := s.n_rand }
    let s := { s with
      next_to_exam := w.cache_obj
      n_rand := w.n_rand
      metric_list := E.qsort w.metric_list
      pos_in_metric_list := 1 }
    evict_obj s (← s.metric_list.head?).cache_obj

def FIFO_Merge_evict : Option State :=
  if s.pos_in_metric_list < E.n_exam_obj then
    let cache_obj := s.metric_list[s.pos_in_metric_list]?.map SortListNode.cache_obj
    let s := { s with pos_in_metric_list := s.pos_in_metric_list + 1 }
    if s.pos_in_metric_list < E.n_evict then cache_obj.bind (evict_obj s) else evict_anew E s
  else evict_anew E s

def FIFO_Merge_remove (id : ObjId) : State × Bool :=
  ({ s with cache := (s.cache.FIFO_remove id).1 }, (s.cache.FIFO_remove id).2)

def ops : CacheOps State where
  count_req s := { s with cache := { s.cache with n_req := s.cache.n_req + 1 } }
  find s req := some (FIFO_Merge_find s req)
  can_insert s req := some (s, !(req.obj_size + s.cache.obj_md_size > s.cache.cache_size))
  get_occupied_byte s := s.cache.occupied_byte
  obj_md_size s := s.cache.obj_md_size
  cache_size s := s.cache.cache_size
  evict s _ := FIFO_Merge_evict E s
  insert s req := some (FIFO_Merge_insert s req)

def FIFO_Merge_get (req : Request) : Option (State × Bool) :=
  (ops E).cache_get_base (fun s => s.cache.q.entries.length) s req

inductive Call
  | get (req : Request)
  | evict
  | remove (id : ObjId)

def call : Call → Option State
  | .get req => (FIFO_Merge_get E s req).map Prod.fst
  | .evict => FIFO_Merge_evict E s
  | .remove id => some (FIFO_Merge_remove s id).1

/-! ## Pointers -/

variable {E} {s t : State} {c : Fifo ObjMd} {p x : Ptr} {o : FifoObj ObjMd}

theorem mem_queue : p ∈ queue c ↔ ∃ o, deref c p = some o := by
  unfold queue
  rw [mem_reverse, List.mem_map]
  constructor
  · rintro ⟨e, he, rfl⟩
    exact ⟨e.2, by simp [deref, ptr, Table.lookup_of_mem_entries he]⟩
  · rintro ⟨o, ho⟩
    simp only [deref, filter_eq_some_iff, decide_eq_true_eq] at ho
    exact ⟨⟨p.obj_id, o⟩, Table.mem_entries_of_lookup ho.1, by simp [ptr, ho.2]⟩

theorem ids_nodup (c : Fifo ObjMd) : ((queue c).map Ptr.obj_id).Nodup := by
  unfold queue
  rw [map_reverse, nodup_reverse, List.map_map]
  exact c.q.keys_nodup

theorem queue_nodup (c : Fifo ObjMd) : (queue c).Nodup := (ids_nodup c).of_map

theorem length_queue (c : Fifo ObjMd) : (queue c).length = c.q.entries.length := by
  simp [queue]

theorem remove_base {id : ObjId} (h : c.q.lookup id = some o) :
    (queue c).Perm (ptr ⟨id, o⟩ :: queue (c.cache_remove_obj_base id o)) := by
  have hperm := (Table.perm_erase h).map ptr
  exact (reverse_perm _).trans (hperm.trans ((reverse_perm _).symm.cons _))

theorem evict_obj_spec (h : s.cache.Inv) (hp : p ∈ queue s.cache) : ∃ c, evict_obj s p = some { s with cache := c } ∧ c.Inv ∧
    (queue s.cache).Perm (p :: queue c) ∧ c.cache_size = s.cache.cache_size ∧ c.obj_md_size = s.cache.obj_md_size := by
  obtain ⟨o, ho⟩ := mem_queue.1 hp
  have hlook := ho
  simp only [deref, filter_eq_some_iff, decide_eq_true_eq] at hlook
  have hptr : ptr ⟨p.obj_id, o⟩ = p := by simp [ptr, hlook.2]
  have hperm := remove_base hlook.1
  rw [hptr] at hperm
  exact ⟨_, by simp [evict_obj, ho], h.remove hlook.1, hperm, rfl, rfl⟩

theorem left_in_queue {c' : Fifo ObjMd} (h : (queue c).Perm (p :: queue c')) : x ∈ queue c' ↔ x ∈ queue c ∧ x ≠ p := by
  have hnodup := h.nodup_iff.1 (queue_nodup c)
  rw [nodup_cons] at hnodup
  rw [h.mem_iff, mem_cons]
  constructor
  · intro hx
    exact ⟨.inr hx, fun heq => hnodup.1 (heq ▸ hx)⟩
  · rintro ⟨rfl | hx, hne⟩
    · exact absurd rfl hne
    · exact hx

/-! ## The objects that are examined -/

/-- From `start` on, or from the tail, `n` objects towards the head and on from the tail; `stop` is the one after them, if the
last of them is not the head. -/
def Stretch (n : Nat) (line : List Ptr) (start : Option Ptr) (seen : List Ptr) (stop : Option Ptr) : Prop :=
  ∃ A B, line = A ++ B ∧ (start = none ∧ A = [] ∨ start = B.head? ∧ B ≠ []) ∧ seen = (B ++ A).take n ∧
    stop = if n = B.length then none else (B ++ A)[n]?

theorem Stretch.parts {n : Nat} {line seen : List Ptr} {start stop : Option Ptr} (h : Stretch n line start seen stop)
    (hline : line.Nodup) (hn : n ≤ line.length) : seen.length = n ∧ (seen ++ stop.toList).Nodup ∧
      ∀ x ∈ seen ++ stop.toList, x ∈ line := by
  obtain ⟨A, B, rfl, -, rfl, rfl⟩ := h
  have hperm : (A ++ B).Perm (B ++ A) := perm_append_comm
  have hsub : ((B ++ A).take n ++ (if n = B.length then none else (B ++ A)[n]?).toList).Sublist (B ++ A) := by
    split_ifs
    · simpa using take_sublist n (B ++ A)
    · rw [← take_add_one]
      exact take_sublist _ _
  refine ⟨?_, (hperm.nodup_iff.1 hline).sublist hsub, fun x hx => hperm.mem_iff.2 (hsub.subset hx)⟩
  rw [length_take, ← hperm.length_eq]
  omega

theorem prev_append {A B : List Ptr} (h : (A ++ p :: B).Nodup) : prev (A ++ p :: B) p = B.head? := by
  induction A with
  | nil => simp [prev]
  | cons a A ih =>
    rw [cons_append, nodup_cons] at h
    have hne : a ≠ p := by
      rintro rfl
      simp at h
    rw [cons_append, prev, if_neg hne]
    exact ih h.2

def Measured (E : Env) (c : Fifo ObjMd) (node : SortListNode) : Prop :=
  ∃ o n_rand, deref c node.cache_obj = some o ∧ retain_metric E c.n_req n_rand o = some node.metric

structure Passes (E : Env) (c : Fifo ObjMd) (w : Exam) (l : List Ptr) (w' : Exam) : Prop where
  run : exam E c l.length w = some w'
  n_loop : w'.n_loop = w.n_loop
  nodes : ∃ nodes, w'.metric_list = w.metric_list ++ nodes ∧ nodes.map SortListNode.cache_obj = l ∧
    ∀ node ∈ nodes, Measured E c node

theorem exam_add (m n : Nat) (w : Exam) : exam E c (m + n) w = (exam E c m w).bind (exam E c n) := by
  induction m generalizing w with
  | zero => simp [exam]
  | succ m ih =>
    rw [Nat.add_right_comm]
    cases hstep : exam_step E c w <;> simp [exam, hstep, ih]

theorem exam_ahead (hpol : E.retain_policy ≠ .none) {A l B : List Ptr} (hq : queue c = A ++ (l ++ B)) {w : Exam}
    (hw : w.cache_obj = (l ++ B).head?) : ∃ w', Passes E c w l w' ∧ w'.cache_obj = B.head? := by
  induction l generalizing A w with
  | nil => exact ⟨w, ⟨rfl, rfl, [], by simp⟩, hw⟩
  | cons p l ih =>
    have hmem : p ∈ queue c := by simp [hq]
    obtain ⟨o, ho⟩ := mem_queue.1 hmem
    obtain ⟨m, hm⟩ : ∃ m, retain_metric E c.n_req w.n_rand o = some m := by
      unfold retain_metric
      cases hp : E.retain_policy <;> simp_all
    have hnodup := queue_nodup c
    rw [hq, cons_append] at hnodup
    have hprev : prev (queue c) p = (l ++ B).head? := by
      rw [hq, cons_append]
      exact prev_append hnodup
    obtain ⟨w', hpass, hstop⟩ := ih (A := A ++ [p]) (w := {
      cache_obj := prev (queue c) p
      n_loop := w.n_loop
      n_rand := if E.retain_policy = .frequency then w.n_rand + 1 else w.n_rand
      metric_list := w.metric_list ++ [{ metric := m, cache_obj := p }] }) (by simp [hq]) hprev
    obtain ⟨nodes, hlist, hnodes, hmeas⟩ := hpass.nodes
    refine ⟨w', ⟨?_, hpass.n_loop, { metric := m, cache_obj := p } :: nodes, by simp [hlist], by simp [hnodes], ?_⟩, hstop⟩
    · rw [← hpass.run]
      simp [exam, exam_step, exam_wrap, hw, ho, hm]
    · simp only [mem_cons, forall_eq_or_imp]
      exact ⟨⟨o, _, ho, hm⟩, hmeas⟩

theorem exam_from_tail {n : Nat} {w : Exam} (hw : w.cache_obj = none) (hloop : w.n_loop ≤ 1) (hp : (queue c).head? = some p)
    (hn : 0 < n) : exam E c n w = exam E c n { w with cache_obj := some p, n_loop := w.n_loop + 2 } := by
  obtain ⟨n, rfl⟩ := Nat.exists_eq_succ_of_ne_zero hn.ne'
  have hle : w.n_loop + 1 ≤ 2 := by omega
  simp [exam, exam_step, exam_wrap, hw, hp, hle, Int.add_assoc]

theorem exam_turned (hpol : E.retain_policy ≠ .none) {n : Nat} {w : Exam} (hw : w.cache_obj = none) (hloop : w.n_loop ≤ 1)
    (hpos : 0 < n) (hn : n < (queue c).length) : ∃ w', exam E c n w = some w' ∧
    w'.cache_obj = (queue c)[n]? ∧ ∃ nodes, w'.metric_list = w.metric_list ++ nodes ∧
      nodes.map SortListNode.cache_obj = (queue c).take n ∧ ∀ node ∈ nodes, Measured E c node := by
  obtain ⟨p, hp⟩ : ∃ p, (queue c).head? = some p := by
    cases hq : queue c <;> simp_all
  have hlen : ((queue c).take n).length = n := length_take_of_le hn.le
  obtain ⟨w', hpass, hstop⟩ := exam_ahead hpol (c := c) (A := []) (l := (queue c).take n) (B := (queue c).drop n)
    (w := { w with cache_obj := some p, n_loop := w.n_loop + 2 }) (by simp) (by simp [hp])
  refine ⟨w', ?_, by rw [hstop, head?_drop], hpass.nodes⟩
  rw [exam_from_tail hw hloop hp hpos, ← hpass.run, hlen]

theorem exam_spec (hpol : E.retain_policy ≠ .none) {start : Option Ptr} (hstart : ∀ p, start = some p → p ∈ queue c)
    {n : Nat} (hpos : 0 < n) (hn : n < (queue c).length) (k : Nat) : ∃ w,
    exam E c n { cache_obj := start, n_rand := k } = some w ∧
    Stretch n (queue c) start (w.metric_list.map SortListNode.cache_obj) w.cache_obj ∧
    ∀ node ∈ w.metric_list, Measured E c node := by
  cases start with
  | none =>
    obtain ⟨w, hw, hstop, nodes, hlist, hnodes, hmeas⟩ := exam_turned hpol (w := { cache_obj := none, n_rand := k }) rfl
      zero_le_one hpos hn
    obtain rfl : w.metric_list = nodes := hlist
    exact ⟨w, hw, ⟨[], queue c, by simp, .inl ⟨rfl, rfl⟩, by simp [hnodes], by simp [hstop, hn.ne]⟩, hmeas⟩
  | some p =>
    obtain ⟨A, B, hq⟩ := append_of_mem (hstart p rfl)
    have hlen := congrArg List.length hq
    rw [length_append] at hlen
    rcases le_or_gt n (p :: B).length with hle | hgt
    · -- the head is not passed
      obtain ⟨w, hpass, hstop⟩ := exam_ahead hpol (c := c) (A := A) (l := (p :: B).take n) (B := (p :: B).drop n)
        (w := { cache_obj := some p, n_rand := k }) (by simpa using hq) (by simp)
      obtain ⟨nodes, hlist, hnodes, hmeas⟩ := hpass.nodes
      obtain rfl : w.metric_list = nodes := hlist
      have hrun := hpass.run
      rw [length_take_of_le hle] at hrun
      refine ⟨w, hrun, ⟨A, p :: B, hq, .inr ⟨rfl, by simp⟩, ?_, ?_⟩, hmeas⟩
      · rw [hnodes, take_append_of_le_length hle]
      · rw [hstop, head?_drop]
        split_ifs with hend
        · simp [hend]
        · rw [getElem?_append_left (by omega)]
    · -- the loop comes to the head, and starts once more from the tail
      obtain ⟨w1, hpass, hnull⟩ := exam_ahead hpol (c := c) (A := A) (l := p :: B) (B := [])
        (w := { cache_obj := some p, n_rand := k }) (by simpa using hq) rfl
      obtain ⟨nodes1, hlist1, hnodes1, hmeas1⟩ := hpass.nodes
      obtain ⟨m, rfl⟩ := Nat.exists_eq_add_of_lt hgt
      obtain ⟨w, hw, hstop, nodes, hlist, hnodes, hmeas⟩ := exam_turned hpol (c := c) (n := m + 1) hnull
        (by simp [hpass.n_loop]) (by omega) (by omega)
      have hA : m + 1 < A.length := by omega
      refine ⟨w, ?_, ⟨A, p :: B, hq, .inr ⟨rfl, by simp⟩, ?_, ?_⟩, ?_⟩
      · rw [Nat.add_assoc, exam_add, hpass.run]
        exact hw
      · have htake : (queue c).take (m + 1) = A.take (m + 1) := by rw [hq, take_append_of_le_length hA.le]
        rw [hlist, hlist1, nil_append, map_append, hnodes1, hnodes, htake, Nat.add_assoc, take_length_add_append]
      · rw [hstop, if_neg (by omega), hq, getElem?_append_left hA, getElem?_append_right (by omega)]
        congr 1
        omega
      · rw [hlist, hlist1, nil_append]
        simp only [mem_append]
        rintro node (hnode | hnode)
        · exact hmeas1 node hnode
        · exact hmeas node hnode

/-! ## Evictions -/

def saved (E : Env) (s : State) : List Ptr :=
  ((s.metric_list.take (E.n_evict - 1)).drop s.pos_in_metric_list).map SortListNode.cache_obj ++ s.next_to_exam.toList

structure Inv (E : Env) (s : State) : Prop where
  cache : s.cache.Inv
  resident : ∀ p ∈ saved E s, p ∈ queue s.cache
  nodup : (saved E s).Nodup
  listed : s.pos_in_metric_list + 1 < E.n_evict → E.n_evict ≤ s.metric_list.length

structure Without (s : State) (p : Ptr) (t : State) : Prop where
  left : (queue s.cache).Perm (p :: queue t.cache)
  cache_size : t.cache.cache_size = s.cache.cache_size
  obj_md_size : t.cache.obj_md_size = s.cache.obj_md_size

theorem Without.absent (h : Without s p t) {id : ObjId} (hid : id ∉ s.cache.q) : id ∉ t.cache.q := by
  intro hmem
  obtain ⟨o, ho⟩ := Table.exists_lookup hmem
  have hleft : ptr ⟨id, o⟩ ∈ queue t.cache := (remove_base ho).mem_iff.2 (.head _)
  obtain ⟨o', ho'⟩ := mem_queue.1 ((left_in_queue h.left).1 hleft).1
  exact hid (Table.mem_of_lookup (filter_eq_some_iff.1 ho').1)

def Examines (E : Env) (s : State) : Prop := E.n_evict ≤ s.pos_in_metric_list + 1 ∧ E.n_exam_obj < s.cache.n_obj

/-- The queue is examined on from `next_to_exam`, and the least valuable of what is seen goes. -/
structure Examined (E : Env) (s : State) (p : Ptr) (t : State) : Prop where
  pos : t.pos_in_metric_list = 1
  nodes : ∃ nodes : List SortListNode,
    Stretch E.n_exam_obj (queue s.cache) s.next_to_exam (nodes.map SortListNode.cache_obj) t.next_to_exam ∧
    (∀ node ∈ nodes, Measured E s.cache node) ∧
    ∃ node ∈ nodes, node.cache_obj = p ∧ ∀ m ∈ nodes, node.metric ≤ m.metric

structure Evicts (E : Env) (s : State) (p : Ptr) (t : State) : Prop where
  run : FIFO_Merge_evict E s = some t
  without : Without s p t
  listed : s.pos_in_metric_list + 1 < E.n_evict →
    t.pos_in_metric_list = s.pos_in_metric_list + 1 ∧ t.next_to_exam = s.next_to_exam
  examined : Examines E s → Examined E s p t

theorem Params.n_evict_le (p : Params) : p.n_evict ≤ p.n_exam_obj := Nat.sub_le _ _

theorem Inv.evict_obj (h : s.cache.Inv) (hp : p ∈ queue s.cache) (hres : ∀ x ∈ saved E s, x ∈ queue s.cache ∧ x ≠ p)
    (hnodup : (saved E s).Nodup) (hlisted : s.pos_in_metric_list + 1 < E.n_evict → E.n_evict ≤ s.metric_list.length) :
    ∃ c, evict_obj s p = some { s with cache := c } ∧ Inv E { s with cache := c } ∧ Without s p { s with cache := c } := by
  obtain ⟨c, hc, hinv, hperm, hsize, hmd⟩ := evict_obj_spec h hp
  exact ⟨c, hc, ⟨hinv, fun x hx => (left_in_queue hperm).2 (hres x hx), hnodup, hlisted⟩, hperm, hsize, hmd⟩

theorem saved_of_done (h : E.n_evict ≤ s.pos_in_metric_list + 1) : saved E s = s.next_to_exam.toList := by
  unfold saved
  rw [drop_eq_nil_of_le]
  · rfl
  · rw [length_take]
    omega

theorem saved_of_listed (h : Inv E s) (hpos : s.pos_in_metric_list + 1 < E.n_evict) :
    ∃ p, s.metric_list[s.pos_in_metric_list]?.map SortListNode.cache_obj = some p ∧
      saved E s = p :: saved E { s with pos_in_metric_list := s.pos_in_metric_list + 1 } := by
  have hlen := h.listed hpos
  have hlt : s.pos_in_metric_list < (s.metric_list.take (E.n_evict - 1)).length := by
    rw [length_take]
    omega
  have hget := getElem?_eq_getElem (show s.pos_in_metric_list < s.metric_list.length by omega)
  refine ⟨s.metric_list[s.pos_in_metric_list].cache_obj, by simp [hget], ?_⟩
  unfold saved
  rw [drop_eq_getElem_cons hlt]
  simp

theorem evict_listed (h : Inv E s) (hpos : s.pos_in_metric_list + 1 < E.n_evict) : ∃ p t, Evicts E s p t ∧ Inv E t := by
  have hle := E.n_evict_le
  obtain ⟨p, hp, hsaved⟩ := saved_of_listed h hpos
  have hnodup := h.nodup
  have hres := h.resident
  rw [hsaved, nodup_cons] at hnodup
  rw [hsaved] at hres
  simp only [mem_cons, forall_eq_or_imp] at hres
  obtain ⟨c, hc, hinv, hout⟩ := Inv.evict_obj (s := { s with pos_in_metric_list := s.pos_in_metric_list + 1 }) h.cache hres.1
    (fun x hx => ⟨hres.2 x hx, fun heq => hnodup.1 (heq ▸ hx)⟩) hnodup.2 (fun _ => h.listed hpos)
  refine ⟨p, _, ⟨?_, { hout with }, fun _ => ⟨rfl, rfl⟩, fun hex => ?_⟩, hinv⟩
  · unfold FIFO_Merge_evict
    rw [if_pos (by omega)]
    rw [if_pos hpos, hp]
    exact hc
  · have := hex.1
    omega

theorem evict_unlisted (hpos : E.n_evict ≤ s.pos_in_metric_list + 1) : ∃ k, E.n_evict ≤ k + 1 ∧
    FIFO_Merge_evict E s = evict_anew E { s with pos_in_metric_list := k } := by
  unfold FIFO_Merge_evict
  split_ifs with hlt
  · refine ⟨s.pos_in_metric_list + 1, by omega, ?_⟩
    dsimp only
    rw [if_neg (by omega)]
  · exact ⟨_, hpos, rfl⟩

theorem evict_tail (h : Inv E s) (hpos : E.n_evict ≤ s.pos_in_metric_list + 1) (hfew : s.cache.n_obj ≤ E.n_exam_obj)
    (hne : queue s.cache ≠ []) : ∃ p t, Evicts E s p t ∧ Inv E t := by
  obtain ⟨k, hk, hevict⟩ := evict_unlisted hpos
  obtain ⟨p, l, hq⟩ := exists_cons_of_ne_nil hne
  have hsaved := saved_of_done (s := { s with pos_in_metric_list := k, next_to_exam := none }) hk
  obtain ⟨c, hc, hinv, hout⟩ := Inv.evict_obj (E := E) (p := p) (s := { s with pos_in_metric_list := k, next_to_exam := none })
    h.cache (by simp [hq]) (by simp [hsaved]) (by simp [hsaved]) (fun hlt => by simp at hlt; omega)
  refine ⟨p, _, ⟨?_, { hout with }, by omega, fun hex => ?_⟩, hinv⟩
  · rw [hevict, evict_anew, if_pos hfew]
    simp [hq, hc]
  · have := hex.2
    omega

theorem evict_examined (hpol : E.retain_policy ≠ .none) (h : Inv E s) (hex : Examines E s) :
    ∃ p t, Evicts E s p t ∧ Inv E t := by
  obtain ⟨hpos, hmany⟩ := hex
  obtain ⟨k, -, hevict⟩ := evict_unlisted hpos
  have hlen : E.n_exam_obj < (queue s.cache).length := by
    rw [length_queue]
    have := h.cache.n_obj
    omega
  have hstart (p : Ptr) (hp : s.next_to_exam = some p) : p ∈ queue s.cache := h.resident p (by simp [saved, hp])
  obtain ⟨w, hw, hstretch, hmeas⟩ := exam_spec hpol hstart E.exam_pos hlen s.n_rand
  obtain ⟨hseen, hnodup, hres⟩ := hstretch.parts (queue_nodup s.cache) hlen.le
  have hperm := E.qsort_perm w.metric_list
  have hsort := E.qsort_sorted w.metric_list
  have hsize := hperm.length_eq
  rw [length_map] at hseen
  cases hlist : E.qsort w.metric_list with
  | nil =>
    have := E.exam_pos
    simp [hlist] at hsize
    omega
  | cons node rest =>
    rw [hlist] at hperm hsort hsize
    rw [pairwise_cons] at hsort
    have hmem (x : SortListNode) : x ∈ w.metric_list ↔ x = node ∨ x ∈ rest := by rw [← hperm.mem_iff, mem_cons]
    have hall := ((hperm.map SortListNode.cache_obj).append_right w.cache_obj.toList)
    rw [← hall.nodup_iff, map_cons, cons_append, nodup_cons] at hnodup
    replace hres (x : Ptr) (hx : x ∈ node.cache_obj :: (rest.map SortListNode.cache_obj ++ w.cache_obj.toList)) :
        x ∈ queue s.cache := hres x (hall.mem_iff.1 hx)
    set u : State := { s with
      next_to_exam := w.cache_obj
      n_rand := w.n_rand
      metric_list := node :: rest
      pos_in_metric_list := 1 } with hu
    have hsub : (saved E u).Sublist (rest.map SortListNode.cache_obj ++ w.cache_obj.toList) :=
      (((take_sublist _ _).drop 1).map _).append_right _
    obtain ⟨c, hc, hinv, hout⟩ := Inv.evict_obj (E := E) (s := u) h.cache (hres node.cache_obj (by simp))
      (fun x hx => ⟨hres x (.tail _ (hsub.subset hx)), fun heq => hnodup.1 (heq ▸ hsub.subset hx)⟩)
      (hnodup.2.sublist hsub) (fun _ => E.n_evict_le.trans (hseen.symm.trans hsize.symm).le)
    refine ⟨node.cache_obj, _, ⟨?_, { hout with }, by omega, fun _ => ⟨rfl, ?_⟩⟩, hinv⟩
    · rw [hevict, evict_anew, if_neg (by simpa using hmany)]
      simp only [bind_eq_bind]
      rw [hw, bind_some, hlist]
      exact hc
    · refine ⟨w.metric_list, hstretch, hmeas, node, (hmem node).2 (.inl rfl), rfl, fun m hm => ?_⟩
      obtain rfl | hm := (hmem m).1 hm
      · exact le_rfl
      · exact hsort.1 m hm

theorem exam_aborts (hpol : E.retain_policy = .none) {n : Nat} (hpos : 0 < n) (w : Exam) : exam E c n w = none := by
  obtain ⟨n, rfl⟩ := Nat.exists_eq_succ_of_ne_zero hpos.ne'
  simp [exam, exam_step, retain_metric, hpol]

theorem evict_spec (h : Inv E s) : (∃ p t, Evicts E s p t ∧ Inv E t) ∨
    FIFO_Merge_evict E s = none ∧ (queue s.cache = [] ∨ E.retain_policy = .none ∧ Examines E s) := by
  rcases lt_or_ge (s.pos_in_metric_list + 1) E.n_evict with hlisted | hpos
  · exact .inl (evict_listed h hlisted)
  · obtain ⟨k, -, hevict⟩ := evict_unlisted hpos
    rcases le_or_gt s.cache.n_obj E.n_exam_obj with hfew | hmany
    · by_cases hne : queue s.cache = []
      · refine .inr ⟨?_, .inl hne⟩
        rw [hevict, evict_anew, if_pos hfew]
        simp [hne]
      · exact .inl (evict_tail h hpos hfew hne)
    · by_cases hpol : E.retain_policy = .none
      · refine .inr ⟨?_, .inr ⟨hpol, hpos, hmany⟩⟩
        rw [hevict, evict_anew, if_neg (by simpa using hmany)]
        simp [exam_aborts hpol E.exam_pos]
      · exact .inl (evict_examined hpol h ⟨hpos, hmany⟩)

theorem evict_of_some (h : Inv E s) (hevict : FIFO_Merge_evict E s = some t) : ∃ p, Evicts E s p t ∧ Inv E t := by
  obtain ⟨p, t', hev, hinv⟩ | ⟨hnone, -⟩ := evict_spec h
  · cases hev.run.symm.trans hevict
    exact ⟨p, hev, hinv⟩
  · cases hnone.symm.trans hevict

/-! ## The other calls -/

theorem Inv.keep (h : Inv E s) (hc : c.Inv) (hq : ∀ p ∈ saved E s, p ∈ queue c) : Inv E { s with cache := c } :=
  ⟨hc, hq, h.nodup, h.listed⟩

theorem queue_set_md {id : ObjId} {md : ObjMd} (ho : c.q.lookup id = some o) (hborn : md.born = o.md.born) :
    queue (c.set_md id o md) = queue c := by
  obtain ⟨l1, l2, hs, -, hrep⟩ := Table.split_at ho
  simp [queue, Fifo.set_md, hrep, hs, ptr, hborn]

variable {req : Request}

def Same (s t : State) : Prop := t.next_to_exam = s.next_to_exam ∧ t.pos_in_metric_list = s.pos_in_metric_list

theorem find_spec (h : Inv E s) (req : Request) : Inv E (FIFO_Merge_find s req).1 ∧ Same s (FIFO_Merge_find s req).1 ∧
    ((FIFO_Merge_find s req).2 = false → req.obj_id ∉ (FIFO_Merge_find s req).1.cache.q) := by
  unfold FIFO_Merge_find
  cases ho : s.cache.q.lookup req.obj_id with
  | none => exact ⟨h, ⟨rfl, rfl⟩, fun _ => AList.lookup_eq_none.1 ho⟩
  | some o =>
    refine ⟨?_, ⟨rfl, rfl⟩, by simp⟩
    apply h.keep (h.cache.set_md ho _)
    rw [queue_set_md ho]
    · exact h.resident
    · rfl

theorem insert_inv (h : Inv E s) (hmiss : req.obj_id ∉ s.cache.q) : Inv E (FIFO_Merge_insert s req) := by
  apply h.keep (h.cache.insert _ hmiss)
  intro p hp
  have hmem := h.resident p hp
  unfold queue at hmem ⊢
  rw [Fifo.FIFO_insert, AList.entries_insert_of_notMem hmiss]
  simp only [map_cons, reverse_cons, mem_append]
  exact .inl hmem

theorem queue_remove (s : State) (id : ObjId) (p : Ptr) :
    p ∈ queue (FIFO_Merge_remove s id).1.cache ↔ p ∈ queue s.cache ∧ p.obj_id ≠ id := by
  unfold FIFO_Merge_remove Fifo.FIFO_remove
  cases ho : s.cache.q.lookup id with
  | none =>
    have hne : p ∈ queue s.cache → p.obj_id ≠ id := by
      rintro hp rfl
      obtain ⟨o, hlook⟩ := mem_queue.1 hp
      simp [deref, ho] at hlook
    exact ⟨fun hp => ⟨hp, hne hp⟩, fun hp => hp.1⟩
  | some o =>
    have hin : ptr ⟨id, o⟩ ∈ queue s.cache := (remove_base ho).mem_iff.2 (.head _)
    rw [left_in_queue (remove_base ho)]
    refine and_congr_right fun hp => not_congr ⟨?_, inj_on_of_nodup_map (ids_nodup s.cache) hp hin⟩
    rintro rfl
    rfl

theorem remove_inv (h : Inv E s) {id : ObjId} (hid : ∀ p ∈ saved E s, p.obj_id ≠ id) : Inv E (FIFO_Merge_remove s id).1 := by
  apply h.keep
  · unfold Fifo.FIFO_remove
    cases ho : s.cache.q.lookup id with
    | none => exact h.cache
    | some o => exact h.cache.remove ho
  · exact fun p hp => (queue_remove s id p).2 ⟨h.resident p hp, hid p hp⟩

theorem init_inv (E : Env) (cache_size : Nat) (md : Bool) :
    Inv E (FIFO_Merge_init cache_size md) := by
  have hle := E.n_evict_le
  have hint := E.exam_le
  refine ⟨Fifo.init_inv _ _, ?_, ?_, fun h => ?_⟩
  · simp [saved, FIFO_Merge_init]
  · simp [saved, FIFO_Merge_init]
  · simp [FIFO_Merge_init] at h
    omega

theorem Inv.count_req (h : Inv E s) : Inv E ((ops E).count_req s) := h.keep ⟨h.cache.occupied, h.cache.n_obj⟩ h.resident

section

variable (hpol : E.retain_policy ≠ .none)
include hpol

theorem get_spec (h : Inv E s) (req : Request) :
    ∃ t hit, FIFO_Merge_get E s req = some (t, hit) ∧ Inv E t := by
  refine Fifo.cache_get_base_of_queue (ops E) State.cache (Inv E) (Inv E) (Inv E) (fun _ => ⟨rfl, rfl, rfl⟩) (fun _ => rfl)
    ?_ (fun _ h => ⟨h.cache, h⟩) ?_ (fun _ h hmiss => ⟨_, rfl, insert_inv h hmiss⟩) h
  · intro s h
    obtain ⟨hinv, -, hmiss⟩ := find_spec h.count_req req
    refine ⟨_, _, rfl, ?_⟩
    split_ifs with hit
    · exact hinv
    · exact ⟨hinv, hmiss (Bool.eq_false_of_not_eq_true hit)⟩
  · intro s h hne
    obtain ⟨p, t, hev, hinv⟩ | ⟨-, hnil | hnone⟩ := evict_spec h
    · have hlen := hev.without.left.length_eq
      rw [length_cons, length_queue, length_queue] at hlen
      exact ⟨t, hev.run, hinv, fun _ => not_imp_not.1 hev.without.absent, hev.without.cache_size, hev.without.obj_md_size, by omega⟩
    · exact absurd (by simpa [queue] using hnil) hne
    · exact absurd hnone.1 hpol

/-! ## Saved pointers -/

def Uses (E : Env) (s : State) (p : Ptr) : Prop :=
  s.pos_in_metric_list + 1 < E.n_evict ∧ s.metric_list[s.pos_in_metric_list]?.map SortListNode.cache_obj = some p ∨
    Examines E s ∧ s.next_to_exam = some p

def Allowed (s : State) : Call → Prop
  | .get req => 1 ≤ req.obj_size
  | .evict => s.cache.n_obj ≠ 0
  | .remove _ => True

def Careful (E : Env) (s : State) : Call → Prop
  | .remove id => ∀ p ∈ saved E s, p.obj_id ≠ id
  | c => Allowed s c

structure Sound (E : Env) (s : State) : Prop where
  uses : ∀ p, Uses E s p → p ∈ queue s.cache
  get : ∀ req, 1 ≤ req.obj_size → (FIFO_Merge_get E s req).isSome
  evict : s.cache.n_obj ≠ 0 → ∃ p t, FIFO_Merge_evict E s = some t ∧ (queue s.cache).Perm (p :: queue t.cache)
  remove : ∀ id p, p ∈ queue (FIFO_Merge_remove s id).1.cache ↔ p ∈ queue s.cache ∧ p.obj_id ≠ id
  counters : s.cache.Inv

theorem Inv.sound (h : Inv E s) : Sound E s := by
  refine ⟨?_, fun req _ => ?_, fun hne => ?_, queue_remove s, h.cache⟩
  · rintro p (⟨hlisted, hp⟩ | ⟨-, hp⟩)
    · obtain ⟨q, hq, hsaved⟩ := saved_of_listed h hlisted
      cases hq.symm.trans hp
      exact h.resident p (by simp [hsaved])
    · exact h.resident p (by simp [saved, hp])
  · obtain ⟨t, hit, hget, -⟩ := get_spec hpol h req
    simp [hget]
  · obtain ⟨p, t, hev, -⟩ | ⟨-, hnil | hnone⟩ := evict_spec h
    · exact ⟨p, t, hev.run, hev.without.left⟩
    · have hlen := h.cache.n_obj
      rw [← length_queue, hnil] at hlen
      exact absurd hlen hne
    · exact absurd hnone.1 hpol

theorem careful_inv (h : Inv E s) (hr : Reach (call E) (Careful E) s t) : Inv E t := by
  apply Reach.inv (Inv E) _ h hr
  intro s c t h hc hcall
  cases c with
  | get req =>
    obtain ⟨u, hit, hget, hinv⟩ := get_spec hpol h req
    simp only [call, hget, map_some, some.injEq] at hcall
    exact hcall ▸ hinv
  | evict =>
    obtain ⟨-, -, hinv⟩ := evict_of_some h hcall
    exact hinv
  | remove id =>
    cases hcall
    exact remove_inv h hc

end

/-- The saved pointers stay valid in every run that removes no object they lead to. Such a remove leaves a pointer to nothing. -/
theorem saved_pointers_valid (E : Env) (hpol : E.retain_policy ≠ .none) (cache_size : Nat) (md : Bool)
    (s : State) (hr : Reach (call E) (Careful E) (FIFO_Merge_init cache_size md) s) :
    Sound E s ∧ ∀ id, (∀ p ∈ saved E (FIFO_Merge_remove s id).1, p ∈ queue (FIFO_Merge_remove s id).1.cache) ↔
      Careful E s (.remove id) := by
  have h := careful_inv hpol (init_inv E _ _) hr
  refine ⟨h.sound hpol, fun id => forall₂_congr fun p hp => ?_⟩
  rw [queue_remove]
  exact and_iff_right (h.resident p hp)

/-! ## Batches -/

def note (s : State) (log : List State) : List State := log ++ [s]

def get_noting (E : Env) (r : State × List State) (req : Request) : Option (State × List State) :=
  (((ops E).observed note).cache_get_base (fun r => r.1.cache.q.entries.length) r req).map Prod.fst

def removed (E : Env) (s : State) : List Ptr :=
  match FIFO_Merge_evict E s with
  | none => []
  | some t => (queue s.cache).filter (· ∉ queue t.cache)

def Lowest (n : Nat) (nodes : List SortListNode) (l : List Ptr) : Prop :=
  l.length = n ∧ l.Nodup ∧ ∀ p ∈ l, ∃ node ∈ nodes, node.cache_obj = p ∧ ∀ m ∈ nodes, m.cache_obj ∉ l → node.metric ≤ m.metric

/-- After the examination in `e`, the evictions `suf`. -/
structure Batch (E : Env) (e : State) (suf : List State) : Prop where
  exam : ∃ nodes stop, Stretch E.n_exam_obj (queue e.cache) e.next_to_exam (nodes.map SortListNode.cache_obj) stop ∧
    (nodes.map SortListNode.cache_obj).Nodup ∧ (∀ node ∈ nodes, Measured E e.cache node) ∧
    (∀ mid e' rest, suf = mid ++ e' :: rest → (∀ m ∈ mid, ¬ Examines E m) → Examines E e' → e'.next_to_exam = stop) ∧
    (E.n_evict ≤ suf.length + 1 → Lowest E.n_evict nodes ((e :: suf.take (E.n_evict - 1)).flatMap (removed E)))
  only : E.n_evict ≤ suf.length + 1 → ∀ m ∈ suf.take (E.n_evict - 1), ¬ Examines E m
  next : ∀ e', suf[E.n_evict - 1]? = some e' → Examines E e'

/-- The evictions, whose first examination starts at the tail, come in batches. -/
structure BatchLaw (E : Env) (log : List State) : Prop where
  first : ∀ e suf, log = e :: suf → Examines E e ∧ e.next_to_exam = none
  batch : ∀ pre e suf, log = pre ++ e :: suf → Examines E e → Batch E e suf

def Next (E : Env) (e e' : State) : Prop := ∃ t, FIFO_Merge_evict E e = some t ∧ Same t e'

structure Run (E : Env) (log : List State) (s : State) : Prop where
  chain : (log ++ [s]).IsChain (Next E)
  inv : ∀ e ∈ log ++ [s], Inv E e
  start : ∀ e suf, log ++ [s] = e :: suf → e.next_to_exam = none ∧ E.n_evict ≤ e.pos_in_metric_list + 1

variable {log : List State}

theorem Run.last (h : Run E log s) : Inv E s := h.inv s (by simp)

theorem Run.keep (h : Run E log s) (hsame : Same s t) (hinv : Inv E t) : Run E log t := by
  refine ⟨?_, ?_, fun e suf heq => ?_⟩
  · have hchain := h.chain
    rw [isChain_append] at hchain ⊢
    refine ⟨hchain.1, by simp, fun e he e' he' => ?_⟩
    obtain rfl : t = e' := by simpa using he'
    obtain ⟨u, hu, hu'⟩ := hchain.2.2 e he s (by simp)
    exact ⟨u, hu, hsame.1.trans hu'.1, hsame.2.trans hu'.2⟩
  · intro e he
    obtain he | rfl : e ∈ log ∨ e = t := by simpa using he
    · exact h.inv e (by simp [he])
    · exact hinv
  · cases log with
    | nil =>
      obtain rfl : t = e := (List.cons.inj heq).1
      obtain ⟨hnext, hpos⟩ := h.start s [] rfl
      exact ⟨hsame.1.trans hnext, hsame.2 ▸ hpos⟩
    | cons e0 log =>
      obtain rfl : e0 = e := (List.cons.inj heq).1
      exact h.start e0 _ rfl

theorem Run.evict (h : Run E log s) (hevict : FIFO_Merge_evict E s = some t) : Run E (log ++ [s]) t := by
  obtain ⟨-, -, hinv⟩ := evict_of_some h.last hevict
  refine ⟨?_, ?_, fun e suf heq => ?_⟩
  · rw [isChain_append]
    refine ⟨h.chain, by simp, fun e he e' he' => ?_⟩
    obtain rfl : s = e := by simpa using he
    obtain rfl : t = e' := by simpa using he'
    exact ⟨t, hevict, rfl, rfl⟩
  · intro e he
    obtain he | rfl := mem_append.1 he |>.imp_right mem_singleton.1
    · exact h.inv e he
    · exact hinv
  · cases log with
    | nil => exact h.start e [] (by rw [(List.cons.inj heq).1]; rfl)
    | cons e0 log => exact h.start e (log ++ [s]) (by rw [← (List.cons.inj heq).1]; rfl)

theorem get_noting_run {r r' : State × List State} (h : Run E r.2 r.1) (hget : get_noting E r req = some r') : Run E r'.2 r'.1 := by
  obtain ⟨⟨r', hit⟩, hcache, rfl⟩ := map_eq_some_iff.1 hget
  let Miss : State × List State → Prop := fun r => Run E r.2 r.1 ∧ req.obj_id ∉ r.1.cache.q
  refine CacheOps.cache_get_base_inv (fun r => Run E r.2 r.1) Miss (fun r => Run E r.2 r.1) ?_ ?_ ?_ ?_ h hcache
  · intro r r' hit h hfind
    cases hfind
    obtain ⟨hinv, hsame, hmiss⟩ := find_spec h.last.count_req req
    have hrun := h.keep hsame hinv
    split_ifs with hit
    · exact hrun
    · exact ⟨hrun, hmiss (Bool.eq_false_of_not_eq_true hit)⟩
  · intro r r' admitted h hcan
    cases hcan
    split_ifs
    · exact h
    · exact h.1
  · rintro r r' ⟨h, hmiss⟩ - hevict
    obtain ⟨t, ht, rfl⟩ := map_eq_some_iff.1 hevict
    obtain ⟨p, hev, -⟩ := evict_of_some h.last ht
    exact ⟨h.evict ht, hev.without.absent hmiss⟩
  · rintro r r' ⟨h, hmiss⟩ - hinsert
    cases hinsert
    exact h.keep ⟨rfl, rfl⟩ (insert_inv h.last hmiss)

theorem Evicts.removed_eq (h : Evicts E s p t) : removed E s = [p] := by
  have hnot : p ∉ queue t.cache := fun hp => ((left_in_queue h.without.left).1 hp).2 rfl
  have hperm := h.without.left.filter (· ∉ queue t.cache)
  have hrest : (queue t.cache).filter (· ∉ queue t.cache) = [] := by simp
  rw [filter_cons, if_pos (by simpa using hnot), hrest] at hperm
  unfold removed
  rw [h.run]
  exact perm_singleton.1 hperm

section

variable (h : Run E log s)
include h

theorem Run.next {pre suf : List State} {e e' : State} (heq : log ++ [s] = pre ++ e :: e' :: suf) :
    Next E e e' := by
  have hchain := h.chain
  rw [heq, isChain_append_cons_cons] at hchain
  exact hchain.2.1

theorem Run.pos (hmany : ∀ e ∈ log, E.n_exam_obj < e.cache.n_obj) {pre suf : List State} {e : State}
    (heq : log ++ [s] = pre ++ e :: suf) (hpre : pre ≠ []) (hlt : pre.length < E.n_evict) :
    e.pos_in_metric_list = pre.length := by
  induction pre using List.reverseRecOn generalizing e suf with
  | nil => exact absurd rfl hpre
  | append_singleton pre e0 ih =>
    rw [append_assoc, singleton_append] at heq
    obtain ⟨t, ht, -, hpos⟩ := h.next heq
    obtain ⟨p, hev, -⟩ := evict_of_some (h.inv e0 (by simp [heq])) ht
    have hmem : e0 ∈ log := by
      have hlog := congrArg List.dropLast heq
      rw [dropLast_concat, dropLast_append_cons, dropLast_cons_of_ne_nil (by simp)] at hlog
      simp [hlog]
    rw [length_append, length_singleton] at hlt ⊢
    rw [hpos]
    cases pre with
    | nil => exact (hev.examined ⟨(h.start e0 _ heq).2, hmany e0 hmem⟩).pos
    | cons a pre =>
      have ih := ih heq (by simp) (by omega)
      rw [(hev.listed (by omega)).1, ih]

/-- A batch whose only eviction is the one that examines. -/
theorem Run.batch {pre suf : List State} {e : State} (heq : log = pre ++ e :: suf) (hex : Examines E e)
    (hmid : ∀ mid e' rest, suf = mid ++ e' :: rest → (∀ m ∈ mid, ¬ Examines E m) → Examines E e' → mid = [])
    (hone : E.n_evict ≤ suf.length + 1 → E.n_evict = 1) (hnext : ∀ e', suf[E.n_evict - 1]? = some e' → Examines E e') :
    Batch E e suf := by
  obtain ⟨e1, rest1, hrest⟩ := exists_cons_of_ne_nil (show suf ++ [s] ≠ [] by simp)
  have hall : log ++ [s] = pre ++ e :: e1 :: rest1 := by
    rw [← hrest, heq]
    simp
  obtain ⟨t, ht, hsame⟩ := h.next hall
  have hinv := h.inv e (by simp [heq])
  obtain ⟨p, hev, -⟩ := evict_of_some hinv ht
  obtain ⟨-, nodes, hstretch, hmeas, node, hnode, hp, hlow⟩ := hev.examined hex
  have hlen : E.n_exam_obj ≤ (queue e.cache).length := by
    have hcount := hinv.cache.n_obj
    have := hex.2
    rw [length_queue]
    omega
  have hnodup := (hstretch.parts (queue_nodup e.cache) hlen).2.1
  refine ⟨⟨nodes, _, hstretch, (nodup_append.1 hnodup).1, hmeas, ?_, fun hd => ?_⟩, fun hd => ?_, hnext⟩
  · intro mid e' rest hsuf hquiet hex'
    obtain rfl := hmid mid e' rest hsuf hquiet hex'
    rw [hsuf] at hrest
    obtain rfl : e' = e1 := (List.cons.inj hrest).1
    exact hsame.1
  · simp only [hone hd, flatMap_cons, hev.removed_eq]
    refine ⟨rfl, nodup_singleton p, fun q hq => ⟨node, hnode, ?_, fun m hm _ => hlow m hm⟩⟩
    rw [hp, mem_singleton.1 hq]
  · simp [hone hd]

theorem Run.law_iff (hpos : 0 < E.n_evict) (hmany : ∀ e ∈ log, E.n_exam_obj < e.cache.n_obj) :
    BatchLaw E log ↔ E.n_evict = 1 ∨ log.length < E.n_evict := by
  have hfirst (e : State) (suf : List State) (heq : log = e :: suf) : Examines E e ∧ e.next_to_exam = none := by
    obtain ⟨hnext, hdone⟩ := h.start e (suf ++ [s]) (by simp [heq])
    exact ⟨⟨hdone, hmany e (by simp [heq])⟩, hnext⟩
  constructor
  · intro law
    by_contra! hlong
    obtain ⟨hne, hlen⟩ := hlong
    obtain ⟨k, hk⟩ : ∃ k, E.n_evict = k + 2 := ⟨E.n_evict - 2, by omega⟩
    cases log with
    | nil => simp at hlen; omega
    | cons e0 rest =>
      -- the last eviction of the batch examines
      have hk' : k < rest.length := by simp at hlen; omega
      have hsplit : e0 :: rest ++ [s] = e0 :: rest.take k ++ rest[k] :: (rest.drop (k + 1) ++ [s]) := by
        conv_lhs => rw [← take_append_drop k rest, drop_eq_getElem_cons hk']
        simp only [cons_append, append_assoc]
      have hlast := h.pos hmany hsplit (by simp) (by simp; omega)
      rw [length_cons, length_take_of_le hk'.le] at hlast
      refine (law.batch [] e0 rest rfl (hfirst e0 rest rfl).1).only (by omega) rest[k] ?_
        ⟨by omega, hmany _ (by simp)⟩
      rw [mem_take_iff_getElem]
      exact ⟨k, by omega, rfl⟩
  · intro hcase
    refine ⟨hfirst, fun pre e suf heq hex => ?_⟩
    have hin : ∀ e' ∈ suf, e' ∈ log := fun e' he' => by simp [heq, he']
    rcases hcase with hone | hshort
    · have hall (e' : State) (he' : e' ∈ suf) : Examines E e' := ⟨by omega, hmany e' (hin e' he')⟩
      refine h.batch heq hex (fun mid e' rest hsuf hquiet _ => ?_) (fun _ => hone) fun e' he' => hall e' (mem_of_getElem? he')
      rw [eq_nil_iff_forall_not_mem]
      exact fun m hm => hquiet m hm (hall m (by simp [hsuf, hm]))
    · have hlen := congrArg List.length heq
      simp only [length_append, length_cons] at hlen
      refine h.batch heq hex (fun mid e' rest hsuf _ hex' => ?_) (by omega) fun e' he' => ?_
      · have hpre : log ++ [s] = (pre ++ e :: mid) ++ e' :: (rest ++ [s]) := by simp [heq, hsuf]
        have hpos' := h.pos hmany hpre (by simp)
        have := hex'.1
        simp [hsuf] at hlen hpos'
        omega
      · have := (List.getElem?_eq_some_iff.1 he').1
        omega

end

def gets (E : Env) (cache_size : Nat) (consider_obj_metadata : Bool) (reqs : List Request) : Option (State × List State) :=
  runs (get_noting E) (FIFO_Merge_init cache_size consider_obj_metadata, []) reqs

theorem gets_isSome (hpol : E.retain_policy ≠ .none) (cache_size : Nat) (md : Bool) (reqs : List Request) :
    (gets E cache_size md reqs).isSome := by
  let get (s : State) (req : Request) : Option State := (FIFO_Merge_get E s req).map Prod.fst
  have hget (s : State) (req : Request) (h : Inv E s) (_ : True) : ∃ u, get s req = some u ∧ Inv E u := by
    obtain ⟨u, hit, hget, hinv⟩ := get_spec hpol h req
    exact ⟨u, by simp [get, hget], hinv⟩
  obtain ⟨t, ht, -⟩ := runs_total _ _ hget reqs _ (fun _ _ => trivial) (init_inv E cache_size md)
  have hrel : Option.Rel (fun (r : State × List State) s => r.1 = s) (gets E cache_size md reqs)
      (runs get (FIFO_Merge_init cache_size md) reqs) := by
    refine runs_rel (R := fun (r : State × List State) s => r.1 = s) ?_ reqs rfl
    rintro r _ req rfl
    exact map_rel (@CacheOps.observed_get _ (ops E) (fun s => s.cache.q.entries.length) _ _ note r) fun _ _ h => h.1
  rw [isSome_iff_ne_none, ne_eq, rel_none_iff hrel, ht]
  simp

/-- The batches are right if and only if each has one eviction, or not even one of them is full. -/
theorem FIFO_Merge_batches (E : Env) (hkeep : E.n_keep_obj < E.n_exam_obj) (cache_size : Nat) (md : Bool)
    (reqs : List Request) :
    (E.retain_policy ≠ .none → (gets E cache_size md reqs).isSome) ∧
    ∀ s log, gets E cache_size md reqs = some (s, log) → (∀ e ∈ log, E.n_exam_obj < e.cache.n_obj) →
      (BatchLaw E log ↔ E.n_exam_obj - E.n_keep_obj = 1 ∨ log.length < E.n_exam_obj - E.n_keep_obj) := by
  refine ⟨fun hpol => gets_isSome hpol _ _ _, fun s log hgets hmany => ?_⟩
  have hle := E.n_evict_le
  have hint := E.exam_le
  have hrun : Run E log s := by
    apply runs_inv (fun r : State × List State => Run E r.2 r.1) (fun _ => True) (fun r req r' h _ hget =>
      get_noting_run h hget) reqs _ _ (fun _ _ => trivial) _ hgets
    refine ⟨by simp, by simpa using init_inv E _ _, fun e suf heq => ?_⟩
    obtain rfl : FIFO_Merge_init cache_size md = e := (List.cons.inj heq).1
    exact ⟨rfl, by simp [FIFO_Merge_init]; omega⟩
  exact hrun.law_iff (Nat.sub_pos_of_lt hkeep) hmany

def exact (n_exam_obj n_keep_obj : Nat) (exam_pos : 0 < n_exam_obj) (exam_le : n_exam_obj ≤ 2147483647)
    (keep_le : n_keep_obj ≤ n_exam_obj) : Env where
  n_exam_obj := n_exam_obj
  n_keep_obj := n_keep_obj
  exam_pos := exam_pos
  exam_le := exam_le
  keep_le := keep_le
  next_rand := id
  rnd := id
  qsort := List.insertionSort fun a b => a.metric ≤ b.metric
  qsort_perm := perm_insertionSort _
  qsort_sorted := by
    have : Std.Total fun a b : SortListNode => a.metric ≤ b.metric := ⟨fun a b => le_total a.metric b.metric⟩
    have : IsTrans SortListNode fun a b => a.metric ≤ b.metric := ⟨fun _ _ _ h h' => le_trans h h'⟩
    exact pairwise_insertionSort _

def six : List Request := [1, 2, 3, 4, 5, 6].map fun id => { obj_id := id }

theorem FIFO_Merge_batches_of_one : ∃ s log, gets (exact 2 1 (by decide) (by decide) (by decide)) 4 false six = some (s, log) ∧
    log.length = 2 ∧ BatchLaw (exact 2 1 (by decide) (by decide) (by decide)) log := by
  have hrun : (gets (exact 2 1 (by decide) (by decide) (by decide)) 4 false six).map (fun r => r.2.map fun e => e.cache.n_obj) =
      some [4, 4] := by decide +kernel
  obtain ⟨⟨s, log⟩, hgets, hlog⟩ := map_eq_some_iff.1 hrun
  refine ⟨s, log, hgets, ?_, ((FIFO_Merge_batches _ (by decide) 4 false six).2 s log hgets fun e he => ?_).2 (.inl rfl)⟩
  · simpa using congrArg List.length hlog
  · have hmem := mem_map_of_mem (f := fun e : State => e.cache.n_obj) he
    rw [hlog] at hmem
    obtain h4 : e.cache.n_obj = 4 := by simpa using hmem
    rw [h4]
    decide

/-- Both examined objects are to go, but the second eviction examines anew. -/
theorem FIFO_Merge_batch_cut_short : ¬ ∀ (E : Env) cache_size md reqs s log, E.n_keep_obj < E.n_exam_obj →
    gets E cache_size md reqs = some (s, log) → (∀ e ∈ log, E.n_exam_obj < e.cache.n_obj) →
    BatchLaw E log := by
  intro hlaw
  have hrun : (gets (exact 2 0 (by decide) (by decide) (by decide)) 4 false six).map
      (fun r => r.2.map fun e => (e.pos_in_metric_list, e.cache.n_obj)) = some [(2147483647, 4), (1, 4)] := by decide +kernel
  obtain ⟨⟨s, log⟩, hgets, hlog⟩ := map_eq_some_iff.1 hrun
  simp only [map_eq_cons_iff, map_eq_nil_iff, Prod.mk.injEq] at hlog
  obtain ⟨e0, -, rfl, ⟨hpos0, hn0⟩, e1, -, rfl, ⟨hpos1, hn1⟩, rfl⟩ := hlog
  have law := hlaw _ 4 false six s _ (by decide) hgets (by simp [hn0, hn1, exact])
  have hfirst := (law.first e0 [e1] rfl).1
  refine (law.batch [] e0 [e1] rfl hfirst).only (by simp [exact, Params.n_evict]) e1 (by simp [exact, Params.n_evict]) ⟨?_, ?_⟩
  · simp [exact, Params.n_evict, hpos1]
  · simp [exact, hn1]

def four : List Call := [1, 2, 3, 4].map fun id => .get { obj_id := id }

theorem saved_pointers_valid_of_four : ∃ s, runs (call (exact 1 0 (by decide) (by decide) (by decide)))
    (FIFO_Merge_init 3 false) four = some s ∧ s.next_to_exam = some { obj_id := 2, born := 2 } ∧
    Sound (exact 1 0 (by decide) (by decide) (by decide)) s := by
  have hrun : (runs (call (exact 1 0 (by decide) (by decide) (by decide))) (FIFO_Merge_init 3 false) four).map
      State.next_to_exam = some (some { obj_id := 2, born := 2 }) := by decide +kernel
  obtain ⟨s, hs, hnext⟩ := map_eq_some_iff.1 hrun
  refine ⟨s, hs, hnext, (saved_pointers_valid _ (by decide) 3 false s (.of_runs ?_ hs)).1⟩
  simp [four, Careful, Allowed]

/-- The user removes object 2, from which the next eviction starts. -/
theorem saved_pointer_dangles : ¬ ∀ (E : Env) cache_size md s, E.retain_policy ≠ .none →
    Reach (call E) Allowed (FIFO_Merge_init cache_size md) s → Sound E s := by
  intro hall
  have hrun : (runs (call (exact 1 0 (by decide) (by decide) (by decide))) (FIFO_Merge_init 3 false) (four ++ [.remove 2])).map
      (fun s => (s.pos_in_metric_list, s.cache.n_obj, s.next_to_exam, queue s.cache)) =
      some (1, 2, some { obj_id := 2, born := 2 }, [{ obj_id := 3, born := 3 }, { obj_id := 4, born := 4 }]) := by decide +kernel
  obtain ⟨s, hs, hstate⟩ := map_eq_some_iff.1 hrun
  simp only [Prod.mk.injEq] at hstate
  obtain ⟨hpos, hn, hnext, hq⟩ := hstate
  have hsound := hall _ 3 false s (by decide) (.of_runs (by simp [four, Allowed]) hs)
  have hmem := hsound.uses { obj_id := 2, born := 2 } (.inr ⟨⟨?_, ?_⟩, hnext⟩)
  · simp [hq] at hmem
  · simp [exact, Params.n_evict, hpos]
  · simp [exact, hn]

end CacheSim.FifoMerge
