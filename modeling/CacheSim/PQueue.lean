import CacheSim.Cache
import CacheSim.Lib.Heap
import Mathlib.Algebra.Order.Ring.Int
import Mathlib.Data.List.Nodup

/-!
# The bundled priority queue (`pqueue.c`)

`pqueue.c` is an imported binary heap, and the policies use it through four calls. A `PQueue` is
any implementation of these that behaves as a max-heap: `nodes` is what the queue holds, in
whatever order.
-/

namespace CacheSim

open List

/-- `pq_node_t`. The policies make one node for each resident object, so a node is known by its
object; every priority they store is an integer, so the `double` is one too. -/
structure PQNode where
  obj_id : ObjId
  pri : Int
deriving DecidableEq, Repr

def PQNode.setPri (id : ObjId) (pri : Int) (n : PQNode) : PQNode :=
  if n.obj_id = id then { n with pri := pri } else n

theorem PQNode.map_setPri (id : ObjId) (pri : Int) (l : List PQNode) : (l.map (setPri id pri)).map obj_id = l.map obj_id := by
  rw [List.map_map]
  refine List.map_congr_left fun n _ => ?_
  unfold Function.comp setPri
  split_ifs <;> rfl

structure PQueue (Q : Type) where
  nodes : Q → List PQNode
  pqueue_init : Q
  pqueue_insert : Q → PQNode → Q
  pqueue_pop : Q → Option (PQNode × Q)
  pqueue_change_priority : Q → Int → ObjId → Q
  nodes_init : nodes pqueue_init = []
  nodes_insert : ∀ q n, (∀ m ∈ nodes q, m.obj_id ≠ n.obj_id) → (nodes (pqueue_insert q n)).Perm (n :: nodes q)
  nodes_change : ∀ q pri id, (nodes (pqueue_change_priority q pri id)).Perm
    ((nodes q).map (PQNode.setPri id pri))
  pop_none : ∀ q, pqueue_pop q = none → nodes q = []
  pop_some : ∀ q n q', pqueue_pop q = some (n, q') → (nodes q).Perm (n :: nodes q') ∧
    ∀ m ∈ nodes q, m.pri ≤ n.pri

/-- An `int64_t` converted to `double`: 53 significant bits, ties to even. -/
def toDouble (n : Int) : Int :=
  let m := n.natAbs
  let scale := 2 ^ (m.log2 - 52)
  let q := m / scale
  let r := m % scale
  let rounded := if 2 * r < scale ∨ (2 * r = scale ∧ q % 2 = 0) then q else q + 1
  n.sign * (rounded * scale : Nat)

def INT64_MAX : Int := 2 ^ 63 - 1

theorem toDouble_exact {n : Int} (h : n.natAbs < 2 ^ 53) : toDouble n = n := by
  have hlog : n.natAbs.log2 - 52 = 0 := by
    rcases Nat.eq_zero_or_pos n.natAbs with h0 | h0
    · simp [h0]
    · have := (Nat.log2_lt (by omega)).2 h
      omega
  unfold toDouble
  simpa [hlog, Nat.mod_one] using Int.sign_mul_natAbs n

theorem toDouble_INT64_MAX : toDouble INT64_MAX = 2 ^ 63 := by decide

/-!
## The binary heap

The calls as `pqueue.c` has them, and the removal.
-/

open Lib Function

/-- `pqueue_t` with the priority and the position its nodes carry. `d` has no entry at 0, and it
is never too short, as the code makes it longer when it is. -/
structure BinaryHeap (α β : Type) where
  size : Nat := 1
  d : Nat → α
  pri : α → β
  pos : α → Nat

namespace BinaryHeap

section

variable {α β : Type} [LinearOrder β] (q : BinaryHeap α β) (i : Nat)

def maxchild : Nat :=
  if q.size ≤ 2 * i then 0
  else if 2 * i + 1 < q.size ∧ q.pri (q.d (2 * i)) < q.pri (q.d (2 * i + 1)) then 2 * i + 1
  else 2 * i

variable {q i}

theorem maxchild_bounds (h : q.maxchild i ≠ 0) : q.maxchild i / 2 = i ∧ i < q.maxchild i ∧ q.maxchild i < q.size := by
  revert h
  unfold maxchild
  split_ifs <;> omega

theorem le_maxchild {j : Nat} (h : 2 ≤ j) (hj : j < q.size) (hi : j / 2 = i) :
    q.maxchild i ≠ 0 ∧ q.pri (q.d j) ≤ q.pri (q.d (q.maxchild i)) := by
  have heq : j = 2 * i ∨ j = 2 * i + 1 := by omega
  unfold maxchild
  rcases heq with rfl | rfl <;> split_ifs <;> grind

end

variable {α β : Type} [DecidableEq α] [LinearOrder β]

/-- `q->d[i] = x` and `q->setpos(x, i)`. -/
def put (q : BinaryHeap α β) (i : Nat) (x : α) : BinaryHeap α β := { q with d := update q.d i x, pos := update q.pos x i }

/-- The loop of `bubble_up`. -/
def bubble (moving_node : α) (q : BinaryHeap α β) (i : Nat) : BinaryHeap α β :=
  if 1 < i ∧ q.pri (q.d (i / 2)) < q.pri moving_node then
    bubble moving_node (q.put i (q.d (i / 2))) (i / 2)
  else q.put i moving_node
termination_by i

/-- The loop of `percolate_down`. -/
def percolate (moving_node : α) (q : BinaryHeap α β) (i : Nat) : BinaryHeap α β :=
  if _h : q.maxchild i ≠ 0 ∧ q.pri moving_node < q.pri (q.d (q.maxchild i)) then
    percolate moving_node (q.put i (q.d (q.maxchild i))) (q.maxchild i)
  else q.put i moving_node
termination_by q.size - i
decreasing_by
  have := maxchild_bounds _h.1
  simp only [put]
  omega

section

variable (q : BinaryHeap α β) (i : Nat) (x : α) (b : β)

def set_pri : BinaryHeap α β := { q with pri := update q.pri x b }

def bubble_up : BinaryHeap α β := q.bubble (q.d i) i

def percolate_down : BinaryHeap α β := q.percolate (q.d i) i

def pqueue_insert : BinaryHeap α β := { q with size := q.size + 1, d := update q.d q.size x }.bubble_up q.size

def pqueue_change_priority : BinaryHeap α β :=
  if q.pri x < b then (q.set_pri x b).bubble_up (q.pos x) else (q.set_pri x b).percolate_down (q.pos x)

/-- `q->d[i] = q->d[--q->size]`. -/
def take_last : BinaryHeap α β := { q with size := q.size - 1, d := update q.d i (q.d (q.size - 1)) }

def pqueue_remove : BinaryHeap α β :=
  let q' := q.take_last (q.pos x)
  if q.pri x < q'.pri (q'.d (q.pos x)) then q'.bubble_up (q.pos x) else q'.percolate_down (q.pos x)

def pqueue_pop : Option (α × BinaryHeap α β) :=
  if q.size = 1 then none else some (q.d 1, (q.take_last 1).percolate_down 1)

end

/-- The calls on a queue, as the policies make them: a node is inserted with its priority set
and when it is not in the queue, and moved or removed when it is. `M` is what the queue is
to hold. -/
inductive Runs : BinaryHeap α β → (α → Option β) → Prop
  | init d pri pos : Runs { d, pri, pos } fun _ => none
  | insert {q M} x b : Runs q M → M x = none → Runs ((q.set_pri x b).pqueue_insert x) (update M x (some b))
  | change {q M} x b : Runs q M → M x ≠ none → Runs (q.pqueue_change_priority x b) (update M x (some b))
  | remove {q M} x : Runs q M → M x ≠ none → Runs (q.pqueue_remove x) (update M x none)
  | pop {q M x q'} : Runs q M → q.pqueue_pop = some (x, q') → Runs q' (update M x none)

/-! ## What the array holds -/

variable {q : BinaryHeap α β} {M N : α → Option β} {i k : Nat} {x : α} {b : β}

/-- The nodes of `M`, each once and at its position. -/
structure Holds (q : BinaryHeap α β) (M : α → Option β) : Prop where
  filled : 1 ≤ q.size
  node : ∀ i, 1 ≤ i → i < q.size → M (q.d i) = some (q.pri (q.d i)) ∧ q.pos (q.d i) = i
  found : ∀ x, M x ≠ none → 1 ≤ q.pos x ∧ q.pos x < q.size ∧ q.d (q.pos x) = x

structure Heap (q : BinaryHeap α β) (M : α → Option β) : Prop extends Holds q M where
  ordered : Ordered q.size (q.pri ∘ q.d)

omit [LinearOrder β] in
/-- A node moved from `k` to `i` leaves its place to the moving node. -/
theorem Holds.exchange (h : Holds (q.put i x) M) (hi : 1 ≤ i) (his : i < q.size) (hk : 1 ≤ k) (hks : k < q.size)
    (hne : k ≠ i) : Holds ((q.put i (q.d k)).put k x) M := by
  obtain ⟨hfilled, hnode, hfound⟩ := h
  simp only [put, update_apply] at hfilled hnode hfound
  have hatk := hnode k hk hks
  have hati := hnode i hi his
  refine ⟨hfilled, fun j hj hjs => ?_, fun y hy => ?_⟩
  · have hatj := hnode j hj hjs
    simp only [put, update_apply]
    grind
  · have hy' := hfound y hy
    simp only [put, update_apply]
    grind

theorem Heap.bubble (h : Holds (q.put i x) M) (hole : Hole q.size (q.pri ∘ q.d) i) (hi : 1 ≤ i) (his : i < q.size)
    (hc : ∀ j, 2 ≤ j → j < q.size → j / 2 = i → q.pri (q.d j) ≤ q.pri x) : Heap (q.bubble x i) M := by
  fun_induction BinaryHeap.bubble x q i with
  | case1 q i hup ih =>
    obtain ⟨hi2, hlt⟩ := hup
    have hhole := hole.up hi2
    rw [comp_apply, ← comp_update] at hhole
    refine ih (h.exchange hi his (by omega) (by omega) (by omega)) hhole (by omega) (by simp only [put]; omega) ?_
    intro j hj hjs heq
    have := hole.others j hj hjs
    simp only [put, update_apply, comp_apply] at *
    grind
  | case2 q i hstop =>
    refine ⟨h, ?_⟩
    rw [put, comp_update]
    exact hole.fill (fun h2 => not_lt.1 fun hlt => hstop ⟨h2, hlt⟩) hc

theorem Heap.percolate (h : Holds (q.put i x) M) (hole : Hole q.size (q.pri ∘ q.d) i) (hi : 1 ≤ i)
    (hp : 2 ≤ i → q.pri x ≤ q.pri (q.d (i / 2))) : Heap (q.percolate x i) M := by
  fun_induction BinaryHeap.percolate x q i with
  | case1 q i hdown ih =>
    obtain ⟨hchild, hlt⟩ := hdown
    obtain ⟨hhalf, hic, hsize⟩ := maxchild_bounds hchild
    have hhole := hole.down hi hhalf hsize fun j hj hjs hji => (le_maxchild hj hjs hji).2
    rw [comp_apply, ← comp_update] at hhole
    refine ih (h.exchange hi (by omega) (by omega) hsize (by omega)) hhole (by omega) fun _ => ?_
    simpa [put, hhalf] using hlt.le
  | case2 q i hstop =>
    refine ⟨h, ?_⟩
    rw [put, comp_update]
    refine hole.fill hp fun j hj hjs hji => ?_
    obtain ⟨hchild, hle⟩ := le_maxchild hj hjs hji
    exact hle.trans (not_lt.1 fun hlt => hstop ⟨hchild, hlt⟩)

/-- Another node, or another priority, at one position of a heap. -/
theorem Heap.settle {r : BinaryHeap α β} (h : Heap q M) (hi : 1 ≤ i) (his : i < q.size) (hsize : r.size ≤ q.size)
    (hsize' : q.size ≤ r.size + 1) (hp : ∀ j, 1 ≤ j → j < r.size → j ≠ i → r.pri (r.d j) = q.pri (q.d j))
    (hholds : Holds (r.put i (r.d i)) N) (hlast : q.pri (q.d i) < r.pri (r.d i) → i < r.size) :
    Heap (if q.pri (q.d i) < r.pri (r.d i) then r.bubble_up i else r.percolate_down i) N := by
  have hole := h.ordered.hole (fun j hj _ => Nat.lt_of_lt_of_le hj hsize) hp
  split_ifs with hlt
  · refine .bubble hholds hole hi (hlast hlt) fun j hj hjs hji => ?_
    have hchild := h.ordered j hj (by omega)
    rw [hp j (by omega) hjs (by omega)]
    exact hchild.trans (hji ▸ hlt.le)
  · refine .percolate hholds hole hi fun h2 => ?_
    rw [hp (i / 2) (by omega) (by omega) (by omega)]
    exact (not_lt.1 hlt).trans (h.ordered i h2 his)

omit [DecidableEq α] in
theorem Heap.init (d : Nat → α) (pri : α → β) (pos : α → Nat) : Heap { d, pri, pos } fun _ => none :=
  ⟨⟨Nat.le_refl 1, by grind, by simp⟩, by grind [Ordered]⟩

theorem Heap.insert (h : Heap q M) (hx : M x = none) : Heap ((q.set_pri x b).pqueue_insert x) (update M x (some b)) := by
  obtain ⟨⟨hfilled, hnode, hfound⟩, hord⟩ := h
  unfold pqueue_insert bubble_up
  simp only [update_self]
  refine .bubble ⟨Nat.le_succ_of_le hfilled, fun j hj hjs => ?_, fun y => ?_⟩ (hord.hole ?_ fun j hj hjs => ?_)
    hfilled (Nat.lt_succ_self _) ?_
  all_goals simp only [put, set_pri, update_apply, comp_apply] at *
  all_goals grind

theorem Heap.change (h : Heap q M) (hx : M x ≠ none) : Heap (q.pqueue_change_priority x b) (update M x (some b)) := by
  obtain ⟨hfilled, hnode, hfound⟩ := h.toHolds
  obtain ⟨hpos, hsize, hat⟩ := hfound x hx
  have hheap := h.settle (r := q.set_pri x b) (N := update M x (some b)) hpos hsize (Nat.le_refl _) (Nat.le_succ _)
    (fun j hj hjs hne => ?_) ⟨hfilled, fun j hj hjs => ?_, fun y hy => ?_⟩ fun _ => hsize
  · simpa [set_pri, pqueue_change_priority, hat] using hheap
  all_goals simp only [put, set_pri, update_apply] at *
  all_goals grind

theorem Heap.remove (h : Heap q M) (hx : M x ≠ none) : Heap (q.pqueue_remove x) (update M x none) := by
  obtain ⟨hfilled, hnode, hfound⟩ := h.toHolds
  obtain ⟨hpos, hsize, hat⟩ := hfound x hx
  have hlast := hnode (q.size - 1)
  have hheap := h.settle (r := q.take_last (q.pos x)) (N := update M x none) hpos hsize (Nat.sub_le _ 1) ?_
    (fun j hj hjs hne => ?_) ⟨?_, fun j hj hjs => ?_, fun y hy => ?_⟩ fun hlt => ?_
  · simpa [take_last, pqueue_remove, hat] using hheap
  all_goals simp only [put, take_last, update_apply] at *
  all_goals grind

theorem Heap.pop {q' : BinaryHeap α β} (h : Heap q M) (hpop : q.pqueue_pop = some (x, q')) :
    q' = q.pqueue_remove x ∧ M x = some (q.pri x) ∧ ∀ y c, M y = some c → c ≤ q.pri x := by
  have hfilled := h.filled
  unfold pqueue_pop at hpop
  split_ifs at hpop with hsize
  cases hpop
  obtain ⟨hM, hpos⟩ := h.node 1 (Nat.le_refl 1) (by omega)
  have hroot := h.ordered.le_root (j := q.size - 1) (by omega) (by omega)
  refine ⟨?_, hM, fun y c hy => ?_⟩
  · unfold pqueue_remove
    rw [hpos]
    simpa [take_last] using fun hlt => absurd hroot hlt.not_ge
  · obtain ⟨hpos, hlt, hat⟩ := h.found y (by simp [hy])
    have hnode := (h.node _ hpos hlt).1
    rw [hat, hy, Option.some.injEq] at hnode
    simpa [hat, hnode] using h.ordered.le_root hpos hlt

/-- After any calls each slot of the array holds a node of the queue, at the position it carries, and the array
holds all of them; what is popped has the greatest priority. -/
theorem array_holds (h : Runs q M) :
    (∀ x b, M x = some b ↔ 1 ≤ q.pos x ∧ q.pos x < q.size ∧ q.d (q.pos x) = x ∧ q.pri x = b) ∧
    (∀ i, 1 ≤ i → i < q.size → M (q.d i) = some (q.pri (q.d i)) ∧ q.pos (q.d i) = i) ∧
    match q.pqueue_pop with
    | none => ∀ x, M x = none
    | some (x, _) => ∃ b, M x = some b ∧ ∀ y c, M y = some c → c ≤ b := by
  have hheap : Heap q M := by
    induction h with
    | init d pri pos => exact .init ..
    | insert x b _ hx ih => exact ih.insert hx
    | change x b _ hx ih => exact ih.change hx
    | remove x _ hx ih => exact ih.remove hx
    | pop _ hpop ih =>
      obtain ⟨rfl, hx, -⟩ := ih.pop hpop
      exact ih.remove (by simp [hx])
  refine ⟨fun x b => ⟨fun hx => ?_, ?_⟩, hheap.node, ?_⟩
  · obtain ⟨hpos, hsize, hat⟩ := hheap.found x (by simp [hx])
    have hpri := (hheap.node _ hpos hsize).1
    exact ⟨hpos, hsize, hat, by simpa [hat, hx] using hpri.symm⟩
  · rintro ⟨hpos, hsize, hat, rfl⟩
    simpa [hat] using (hheap.node _ hpos hsize).1
  · rcases hpop : q.pqueue_pop with _ | ⟨x, q'⟩
    · intro x
      by_contra hx
      have := hheap.found x hx
      unfold pqueue_pop at hpop
      split_ifs at hpop
      omega
    · exact ⟨_, (hheap.pop hpop).2⟩

theorem array_holds_of_two :
    let q : BinaryHeap Nat Int := { d := id, pri := fun _ => 0, pos := id }
    let q := (((q.set_pri 1 5).pqueue_insert 1).set_pri 2 7).pqueue_insert 2
    ∀ x b, update (update (fun _ => none) 1 (some 5)) 2 (some 7) x = some b ↔
      1 ≤ q.pos x ∧ q.pos x < q.size ∧ q.d (q.pos x) = x ∧ q.pri x = b :=
  (array_holds (.insert 2 7 (.insert 1 5 (.init ..) rfl) rfl)).1

/-! ## The heap as a queue of objects -/

section

variable {q : BinaryHeap ObjId Int} {M : ObjId → Option Int} {id : ObjId}

def nodes (q : BinaryHeap ObjId Int) : List PQNode := (range' 1 (q.size - 1)).map fun i => ⟨q.d i, q.pri (q.d i)⟩

theorem Heap.mem_nodes (h : Heap q M) (n : PQNode) : n ∈ q.nodes ↔ M n.obj_id = some n.pri := by
  have hfilled := h.filled
  simp only [nodes, mem_map, mem_range'_1]
  constructor
  · rintro ⟨i, ⟨hi, his⟩, rfl⟩
    exact (h.node i hi (by omega)).1
  · intro hn
    obtain ⟨hpos, hlt, hat⟩ := h.found n.obj_id (by simp [hn])
    have hpri := (h.node _ hpos hlt).1
    rw [hat, hn, Option.some.injEq] at hpri
    exact ⟨_, ⟨hpos, by omega⟩, by rw [hat, ← hpri]⟩

theorem Heap.nodup_ids (h : Heap q M) : (q.nodes.map PQNode.obj_id).Nodup := by
  rw [nodes, List.map_map]
  refine Nodup.map_on (fun i hi j hj heq => ?_) nodup_range'
  rw [mem_range'_1] at hi hj
  rw [← (h.node i hi.1 (by omega)).2, ← (h.node j hj.1 (by omega)).2]
  exact congrArg q.pos heq

theorem Heap.nodes_perm (h : Heap q M) {l : List PQNode} (hl : (l.map PQNode.obj_id).Nodup)
    (hmem : ∀ n, M n.obj_id = some n.pri ↔ n ∈ l) : q.nodes.Perm l :=
  (perm_ext_iff_of_nodup h.nodup_ids.of_map hl.of_map).2 fun n => (h.mem_nodes n).trans (hmem n)

theorem Heap.ne_none (h : Heap q M) : M id ≠ none ↔ ∃ n ∈ q.nodes, n.obj_id = id := by
  constructor
  · intro hid
    obtain ⟨b, hb⟩ := Option.ne_none_iff_exists'.1 hid
    exact ⟨⟨id, b⟩, (h.mem_nodes _).2 hb, rfl⟩
  · rintro ⟨n, hn, rfl⟩
    simp [(h.mem_nodes n).1 hn]

/-- Where an object is inserted that is present, or moved that is absent, it does nothing. -/
def heapQueue : PQueue { q : BinaryHeap ObjId Int // ∃ M, Heap q M } where
  nodes q := q.1.nodes
  pqueue_init := ⟨{ d := fun _ => 0, pri := fun _ => 0, pos := fun _ => 0 }, _, .init ..⟩
  pqueue_insert q n :=
    if hn : ∃ m ∈ q.1.nodes, m.obj_id = n.obj_id then q
    else ⟨(q.1.set_pri n.obj_id n.pri).pqueue_insert n.obj_id, by
      obtain ⟨M, h⟩ := q.2
      exact ⟨_, h.insert (not_not.1 (mt h.ne_none.1 hn))⟩⟩
  pqueue_pop q := q.1.pqueue_pop.pmap (fun r hr => (⟨r.1, q.1.pri r.1⟩, ⟨r.2, hr⟩)) fun r hr => by
    obtain ⟨M, h⟩ := q.2
    obtain ⟨heq, hx, -⟩ := h.pop hr
    exact ⟨_, heq ▸ h.remove (by simp [hx])⟩
  pqueue_change_priority q pri id :=
    if hid : ∃ m ∈ q.1.nodes, m.obj_id = id then ⟨q.1.pqueue_change_priority id pri, by
      obtain ⟨M, h⟩ := q.2
      exact ⟨_, h.change (h.ne_none.2 hid)⟩⟩
    else q
  nodes_init := rfl
  nodes_insert q n hn := by
    obtain ⟨M, h⟩ := q.2
    have hout : ¬ ∃ m ∈ q.1.nodes, m.obj_id = n.obj_id := by simpa using hn
    have hnone := not_not.1 (mt h.ne_none.1 hout)
    rw [dif_neg hout]
    refine (h.insert hnone).nodes_perm (nodup_cons.2 ⟨by simpa using hn, h.nodup_ids⟩) fun m => ?_
    rw [mem_cons, h.mem_nodes, update_apply]
    grind [PQNode]
  nodes_change q pri id := by
    obtain ⟨M, h⟩ := q.2
    split_ifs with hid
    · refine (h.change (h.ne_none.2 hid)).nodes_perm ?_ fun m => ?_
      · rw [PQNode.map_setPri]
        exact h.nodup_ids
      · rw [mem_map, update_apply]
        simp only [h.mem_nodes] at hid ⊢
        grind [PQNode, PQNode.setPri]
    · rw [map_congr_left fun n hn => show PQNode.setPri id pri n = n from if_neg fun he => hid ⟨n, hn, he⟩, map_id']
  pop_none q hq := by
    rw [Option.pmap_eq_none_iff] at hq
    unfold BinaryHeap.pqueue_pop at hq
    split_ifs at hq with hsize
    simp [nodes, hsize]
  pop_some q n q' hq := by
    obtain ⟨M, h⟩ := q.2
    obtain ⟨⟨x, r⟩, hr, hpop, heq⟩ := Option.pmap_eq_some_iff.1 hq
    cases heq
    obtain ⟨rfl, hx, hmax⟩ := h.pop hpop
    have h' := h.remove (x := x) (by simp [hx])
    refine ⟨h.nodes_perm (nodup_cons.2 ⟨?_, h'.nodup_ids⟩) fun m => ?_, fun m hm => hmax _ _ ((h.mem_nodes m).1 hm)⟩
    · rw [mem_map]
      exact fun hmem => h'.ne_none.2 hmem (update_self ..)
    · rw [mem_cons, h'.mem_nodes, update_apply]
      grind [PQNode]

end

end BinaryHeap

end CacheSim
