import CacheSim.Cache
import CacheSim.Lib.RefCount

/-!
# The prefix tree (`prefixRadixTree.cpp`)

A path-compressed tree over block ids. Nodes live on a heap and know each other by pointer; `none`
is a pointer that is followed to no node, or an index outside a vector.
-/

namespace CacheSim.Radix

open Lib Function

abbrev Ptr := Nat

/-- The fields of `Node` but for `sample_idx`. -/
structure Run where
  blocks : List ObjId := []
  resident : List Bool := []
  n_resident : Int := 0
  parent : Option Ptr := none
  children : AList fun _ : ObjId => Ptr := ∅

structure Node extends Run where
  sample_idx : Int := -1

structure PrefixRadixTree where
  heap : Ptr → Option Node
  /-- the address that `new` returns -/
  next : Ptr
  root_ : Ptr
  index_ : ObjId → Option (Ptr × Nat) := fun _ => none
  sampleable_ : List Ptr := []
  orphans_ : Finset ObjId := ∅
  n_ambiguous_ : Int := 0

def PrefixRadixTree.init : PrefixRadixTree where
  heap := update (fun _ => none) 0 (some {})
  next := 1
  root_ := 0

namespace PrefixRadixTree

variable (t : PrefixRadixTree)

def set (p : Ptr) (n : Node) : PrefixRadixTree := { t with heap := update t.heap p (some n) }

def refresh_sampleable (p : Ptr) : Option PrefixRadixTree := do
  let node ← t.heap p
  let want : Bool := node.n_resident > 0
  let present : Bool := node.sample_idx ≥ 0
  if want = present then
    return t
  if want then
    return { t.set p { node with sample_idx := t.sampleable_.length } with
      sampleable_ := t.sampleable_ ++ [p] }
  else
    let hole := node.sample_idx.toNat
    let last ← t.sampleable_.getLast?
    guard (hole < t.sampleable_.length)
    let last_node ← t.heap last
    let t := { t.set last { last_node with sample_idx := hole } with
      sampleable_ := (t.sampleable_.set hole last).dropLast }
    let node ← t.heap p
    return t.set p { node with sample_idx := -1 }

/-! ## Adding a path -/

/-- What the loop of `new_node` changes; the last two are fields of the new node. -/
structure Adoption where
  index_ : ObjId → Option (Ptr × Nat)
  orphans_ : Finset ObjId
  n_ambiguous_ : Int
  resident : List Bool
  n_resident : Int := 0

def adopt (p : Ptr) (a : Adoption) (b : ObjId × Nat) : Adoption :=
  match a.index_ b.1 with
  | some _ => { a with n_ambiguous_ := a.n_ambiguous_ + 1 }
  | none =>
    let a := { a with index_ := update a.index_ b.1 (some (p, b.2)) }
    if b.1 ∈ a.orphans_ then
      { a with
        orphans_ := a.orphans_.erase b.1
        resident := a.resident.set b.2 true
        n_resident := a.n_resident + 1 }
    else a

def new_node (parent : Ptr) (ids : List ObjId) : Option (PrefixRadixTree × Ptr) := do
  let p := t.next
  let a := ids.zipIdx.foldl (adopt p)
    { index_ := t.index_, orphans_ := t.orphans_, n_ambiguous_ := t.n_ambiguous_
      resident := List.replicate ids.length false }
  let t := { t with
    heap := update t.heap p (some
      { blocks := ids, resident := a.resident, n_resident := a.n_resident, parent := some parent })
    next := t.next + 1
    index_ := a.index_
    orphans_ := a.orphans_
    n_ambiguous_ := a.n_ambiguous_ }
  let t ← t.refresh_sampleable p
  return (t, p)

def set_parent (s : Ptr) (t : PrefixRadixTree) (kv : Sigma fun _ : ObjId => Ptr) : Option PrefixRadixTree := do
  let child ← t.heap kv.2
  return t.set kv.2 { child with parent := some s }

def rehome (p s : Ptr) (index_ : ObjId → Option (Ptr × Nat)) (b : ObjId × Nat) : ObjId → Option (Ptr × Nat) :=
  match index_ b.1 with
  | some (q, _) => if q = p then update index_ b.1 (some (s, b.2)) else index_
  | none => index_

def split_node (p : Ptr) (pos : Nat) : Option PrefixRadixTree := do
  let node ← t.heap p
  if pos ≤ 0 ∨ node.blocks.length ≤ pos then
    return t
  let s := t.next
  let suffix : Node :=
    { parent := some p
      blocks := node.blocks.drop pos
      resident := node.resident.drop pos
      n_resident := (node.resident.drop pos).count true
      children := node.children }
  let t := { t.set s suffix with next := t.next + 1 }
  let t ← node.children.entries.foldlM (set_parent s) t
  let first ← suffix.blocks.head?
  let t := t.set p { node with
    blocks := node.blocks.take pos
    resident := node.resident.take pos
    n_resident := (node.resident.take pos).count true
    children := AList.insert first s ∅ }
  let t := { t with index_ := suffix.blocks.zipIdx.foldl (rehome p s) t.index_ }
  let t ← t.refresh_sampleable p
  t.refresh_sampleable s

def common : List ObjId → List ObjId → Nat
  | a :: as, b :: bs => if a = b then common as bs + 1 else 0
  | _, _ => 0

/-- The variables of `add_sequence`; `done` is set by the `return`. -/
structure Walk where
  t : PrefixRadixTree
  cur : Ptr
  i : Nat := 0
  done : Bool := false

def add_step (ids : List ObjId) (w : Walk) : Option Walk := do
  let cur ← w.t.heap w.cur
  let first ← ids[w.i]?
  match cur.children.lookup first with
  | none =>
    let (t, child) ← w.t.new_node w.cur (ids.drop w.i)
    let cur ← t.heap w.cur
    return { w with t := t.set w.cur { cur with children := cur.children.insert first child }, done := true }
  | some child =>
    let node ← w.t.heap child
    let j := common node.blocks (ids.drop w.i)
    let t ← if j < node.blocks.length then w.t.split_node child j else some w.t
    return { w with t := t, cur := child, i := w.i + j }

def add_sequence (ids : List ObjId) : Option PrefixRadixTree := do
  let w ← whileLoop (fun w => !w.done && w.i < ids.length) (add_step ids) ids.length { t := t, cur := t.root_ }
  return w.t

/-! ## Residency -/

def mark_resident (id : ObjId) : Option PrefixRadixTree :=
  match t.index_ id with
  | none => some { t with orphans_ := insert id t.orphans_ }
  | some (p, pos) => do
    let node ← t.heap p
    let flag ← node.resident[pos]?
    if flag then
      return t
    let t := t.set p { node with resident := node.resident.set pos true, n_resident := node.n_resident + 1 }
    t.refresh_sampleable p

def unindex (p : Ptr) (index_ : ObjId → Option (Ptr × Nat)) (id : ObjId) : ObjId → Option (Ptr × Nat) :=
  match index_ id with
  | some (q, _) => if q = p then update index_ id none else index_
  | none => index_

def prunable (w : PrefixRadixTree × Ptr) : Bool :=
  w.2 != w.1.root_ && (w.1.heap w.2).all fun node => node.n_resident == 0 && node.children.entries.isEmpty

def prune_step (w : PrefixRadixTree × Ptr) : Option (PrefixRadixTree × Ptr) := do
  let node ← w.1.heap w.2
  let parent ← node.parent
  let index_ := node.blocks.foldl (unindex w.2) w.1.index_
  let parent_node ← w.1.heap parent
  let first ← node.blocks.head?
  let t := { w.1.set parent { parent_node with children := parent_node.children.erase first } with
    index_ := index_ }
  return ({ t with heap := update t.heap w.2 none }, parent)

def prune_if_empty_leaf (p : Ptr) : Option PrefixRadixTree := do
  let (t, _) ← whileLoop prunable prune_step t.next (t, p)
  return t

/-- Returns false also when the block's node was deleted. -/
def mark_evicted (id : ObjId) : Option (PrefixRadixTree × Bool) :=
  let t := { t with orphans_ := t.orphans_.erase id }
  match t.index_ id with
  | none => some (t, false)
  | some (p, pos) => do
    let node ← t.heap p
    let flag ← node.resident[pos]?
    if !flag then
      return (t, true)
    let t := t.set p { node with resident := node.resident.set pos false, n_resident := node.n_resident - 1 }
    let t ← t.refresh_sampleable p
    let node ← t.heap p
    let pruned := node.n_resident == 0 && node.children.entries.isEmpty
    let t ← t.prune_if_empty_leaf p
    return (t, !pruned)

def is_resident (id : ObjId) : Option Bool :=
  match t.index_ id with
  | none => some (decide (id ∈ t.orphans_))
  | some (p, pos) => do
    let node ← t.heap p
    node.resident[pos]?

/-! ## Candidates -/

def n_sampleable : Int := t.sampleable_.length

def node_at (i : Nat) : Option Ptr := t.sampleable_[i]?

def sample_node (rand_value : Nat) : Option Ptr := t.sampleable_[rand_value % t.sampleable_.length]?

end PrefixRadixTree

def Run.resident_at (node : Run) (from_tail : Bool) (rank : Int) : Option ObjId :=
  let total : Int := node.resident.length
  let i := (if from_tail then total - 1 - rank else rank).toNat
  if node.resident[i]? = some true then node.blocks[i]? else none

/-- `none` where the source has -1. -/
def Run.first_resident_rank (node : Run) (from_tail : Bool) : Option Nat :=
  (List.range node.resident.length).find? fun k : Nat => (node.resident_at from_tail k).isSome

def Run.canonical_resident (node : Run) (from_tail : Bool) (start lo : Int) : Option ObjId :=
  let total : Int := node.resident.length
  if total = 0 then none else
  let lo := if lo < 0 then 0 else lo
  let start := if start < lo then lo else start
  let start := if start > total - 1 then total - 1 else start
  (List.range (node.resident.length + 1)).findSome? fun d : Nat =>
    let below := start - d
    let above := start + d
    (if below ≥ lo then node.resident_at from_tail below else none).or
      (if d ≠ 0 ∧ above < total then node.resident_at from_tail above else none)

def Run.collect_resident (node : Run) (from_tail : Bool) (max_take : Int) : List ObjId :=
  ((List.range node.resident.length).filterMap fun k : Nat => node.resident_at from_tail k).take max_take.toNat

end CacheSim.Radix
