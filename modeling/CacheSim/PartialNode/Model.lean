import CacheSim.Fifo
import CacheSim.Radix.Model

/-!
# Partial-node eviction (`partialNodeCache.cpp`)

One hash table, two tiers. A block that the tree does not have resident is in the small queue; the
others make up the main set, from which a round takes some blocks of one node of the tree.
-/

namespace CacheSim.PartialNode

open Lib Radix

/-- `cache_obj_t` -/
structure Obj where
  obj_size : Int
  freq : Int := 0
  cost : Int := 1
  next_access_vtime : Int
  /-- `Random.last_access_vtime` -/
  last_access_vtime : Int
deriving DecidableEq, Repr

inductive Mode where
  | kDrain | kMicro
deriving DecidableEq, Repr

/-- The fields of `cache_t` and of `PartialNodeCache` that change; a subclass adds an `ε`. -/
structure State (ε : Type) where
  cache_size : Int
  n_req : Int := 0
  occupied_byte : Int := 0
  n_obj : Int := 0
  hashtable : Table ObjId Obj := ∅
  tree : PrefixRadixTree := .init
  request_end_vtime : Int := -1
  /-- from `small_head` to `small_tail` -/
  small : List ObjId := []
  small_bytes : Int := 0
  small_capacity : Int := 0
  ghost : Option (Fifo Unit) := none
  has_evicted : Bool := false
  hit_on_ghost : Bool := false
  /-- the calls of `next_rand` so far -/
  n_rand : Nat := 0
  extra : ε

/-- A subclass with its parameters, over scores `β`; and what it takes from the library: the random
numbers, and which element of a set comes first. -/
structure Algorithm (ε β : Type) where
  score : State ε → ObjId → Obj → β
  lt : β → β → Bool
  DBL_MAX : β
  on_record_request : ε → List ObjId → ε
  mode : Mode := .kMicro
  micro_batch : Int := 64
  n_sample : Int := 32
  move_to_main_threshold : Int := 2
  evict_from_tail : Bool := false
  next_rand : Nat → Nat
  any_orphan : Finset ObjId → ObjId
  any_orphan_mem : ∀ s : Finset ObjId, s.Nonempty → any_orphan s ∈ s

namespace State

variable {ε : Type} (s : State ε)

def small_enabled : Bool := s.small_capacity > 0

def main_occupied : Int := s.occupied_byte - s.small_bytes

def pn_now : Int := if s.request_end_vtime > s.n_req then s.request_end_vtime else s.n_req

def set_obj (id : ObjId) (obj : Obj) : State ε := { s with hashtable := s.hashtable.insert id obj }

def cache_remove_obj_base (id : ObjId) (obj : Obj) : State ε :=
  { s with
    hashtable := s.hashtable.erase id
    occupied_byte := s.occupied_byte - obj.obj_size
    n_obj := s.n_obj - 1 }

def cache_evict_base (id : ObjId) (obj : Obj) : State ε := s.cache_remove_obj_base id obj

def unlink_small (id : ObjId) (size : Int) : State ε :=
  { s with small := s.small.erase id, small_bytes := s.small_bytes - size }

def mark_resident (id : ObjId) : Option (State ε) := do
  let tree ← s.tree.mark_resident id
  return { s with tree := tree }

def mark_evicted (id : ObjId) : Option (State ε) := do
  let (tree, _) ← s.tree.mark_evicted id
  return { s with tree := tree }

def ghost_get (id : ObjId) : Option (State ε) :=
  match s.ghost with
  | none => some s
  | some ghost => do
    let (ghost, _) ← ghost.FIFO_get { obj_id := id, obj_size := 1 }
    return { s with ghost := some ghost }

end State

def req_cost_or_one (req : Request) : Int := if req.obj_cost > 0 then Int.bmod req.obj_cost (2 ^ 32) else 1

section

variable {ε : Type}

def pn_find (s : State ε) (req : Request) (update_cache : Bool) : State ε × Bool :=
  let s := if update_cache && s.small_enabled then { s with hit_on_ghost := false } else s
  match s.hashtable.lookup req.obj_id with
  | some obj =>
    if update_cache then
      (s.set_obj req.obj_id { obj with
        next_access_vtime := req.next_access_vtime
        freq := obj.freq + 1
        cost := req_cost_or_one req
        last_access_vtime := s.pn_now }, true)
    else (s, true)
  | none =>
    match s.ghost with
    | some ghost =>
      if update_cache && s.small_enabled then
        let (ghost, removed) := ghost.FIFO_remove req.obj_id
        ({ s with ghost := some ghost, hit_on_ghost := s.hit_on_ghost || removed }, false)
      else (s, false)
    | none => (s, false)

def cache_insert_base (s : State ε) (req : Request) : State ε :=
  { s.set_obj req.obj_id
      { obj_size := req.obj_size
        cost := req_cost_or_one req
        next_access_vtime := req.next_access_vtime
        last_access_vtime := s.pn_now } with
    occupied_byte := s.occupied_byte + req.obj_size
    n_obj := s.n_obj + 1 }

def pn_insert (s : State ε) (req : Request) : Option (State ε) :=
  let s := cache_insert_base s req
  if !s.small_enabled then s.mark_resident req.obj_id else
  let to_main := s.hit_on_ghost || (!s.has_evicted && s.small_bytes ≥ s.small_capacity)
  let s := { s with hit_on_ghost := false }
  if to_main then s.mark_resident req.obj_id
  else some { s with small := s.small ++ [req.obj_id], small_bytes := s.small_bytes + req.obj_size }

end

/-! ## Eviction -/

variable {ε β : Type} (A : Algorithm ε β)

/-- One round of `evict_small`: the oldest block is promoted or dropped. -/
def evict_small_step (w : State ε × Bool) : Option (State ε × Bool) := do
  let id ← w.1.small.head?
  let victim ← w.1.hashtable.lookup id
  let s := w.1.unlink_small id victim.obj_size
  if victim.freq ≥ A.move_to_main_threshold then
    let s ← (s.set_obj id { victim with last_access_vtime := s.n_req }).mark_resident id
    return (s, false)
  else
    let s ← s.ghost_get id
    return (s.cache_evict_base id victim, true)

variable (s : State ε)

def evict_small : Option (State ε × Bool) :=
  whileLoop (fun w => !w.2 && !w.1.small.isEmpty) (evict_small_step A) s.small.length (s, false)

def evict_orphan (w : State ε × Int) : Option (State ε × Int) := do
  let id := A.any_orphan w.1.tree.orphans_
  let s ← w.1.mark_evicted id
  match w.1.hashtable.lookup id with
  | none => return (s, w.2)
  | some obj => return (s.cache_evict_base id obj, w.2 + 1)

def evict_orphans (n : Int) : Option (State ε × Int) :=
  whileLoop (fun w => w.2 < n && !decide (w.1.tree.orphans_ = ∅)) (evict_orphan A) s.tree.orphans_.card (s, 0)

/-- `none` when the node has nothing to give. The nodes of the pool are on the heap. -/
def node_chunk_score (node : Ptr) (chunk : Int) : Option β := do
  let node ← s.tree.heap node
  let total : Int := node.blocks.length
  if total = 0 ∨ node.n_resident = 0 then
    none
  let rep ← match A.mode with
    | .kMicro => do
      let first ← node.first_resident_rank A.evict_from_tail
      node.canonical_resident A.evict_from_tail (min (first + chunk.tdiv 2) (total - 1)) first
    | .kDrain => node.canonical_resident A.evict_from_tail ((min chunk total).tdiv 2) 0
  let obj ← s.hashtable.lookup rep
  return A.score s rep obj

def take_block (w : State ε × Int) (id : ObjId) : Option (State ε × Int) :=
  match w.1.hashtable.lookup id with
  | none => some w
  | some obj => do
    let s ← w.1.mark_evicted id
    return (s.cache_evict_base id obj, w.2 + 1)

def take_from_node (node : Ptr) (max_take : Int) : Option (State ε × Int) := do
  let node ← s.tree.heap node
  (node.collect_resident A.evict_from_tail max_take).foldlM take_block (s, 0)

structure Draw (β : Type) where
  n_rand : Nat
  best : β
  victim : Option Ptr := none

def draw_node (exhaustive : Bool) (chunk : Int) (d : Draw β) (i : Nat) : Draw β :=
  let (node, d) :=
    if exhaustive then (s.tree.node_at i, d)
    else (s.tree.sample_node (A.next_rand d.n_rand), { d with n_rand := d.n_rand + 1 })
  match node.bind fun p => (node_chunk_score A s p chunk).map (p, ·) with
  | none => d
  | some (p, score) => if A.lt score d.best then { d with best := score, victim := some p } else d

/-- The node with the lowest score: of all, when the pool is small, else of a sample. -/
def draw_nodes (chunk : Int) : Draw β :=
  let pool := s.tree.n_sampleable
  let exhaustive : Bool := pool ≤ A.n_sample
  let draws := if exhaustive then pool else A.n_sample
  (List.range draws.toNat).foldl (draw_node A s exhaustive chunk) { n_rand := s.n_rand, best := A.DBL_MAX }

/-- The variables of `pn_evict_n`; `stop` is set by a `break`. -/
structure Progress (ε : Type) where
  s : State ε
  evicted : Int
  stop : Bool := false

def drop_small (w : Progress ε) : Option (Progress ε) := do
  let (s, dropped) ← evict_small A w.s
  if dropped then
    return { w with s := s, evicted := w.evicted + 1 }
  else
    return { w with s := s, stop := true }

def drains_small (n : Int) (w : Progress ε) : Bool :=
  !w.stop && w.s.small_enabled && w.evicted < n && w.s.small_bytes > 0 &&
    w.s.main_occupied ≤ w.s.cache_size - w.s.small_capacity

def chunk_of (want : Int) : Int :=
  match A.mode with
  | .kMicro => min want A.micro_batch
  | .kDrain => want

def evict_chunk (chunk : Int) (w : Progress ε) : Option (Progress ε) :=
  let d := draw_nodes A w.s chunk
  let s := { w.s with n_rand := d.n_rand }
  match d.victim with
  | none => some { w with s := s, stop := true }
  | some victim => do
    let (s, took) ← take_from_node A s victim chunk
    if took = 0 then
      return { w with s := s, stop := true }
    else
      return { w with s := s, evicted := w.evicted + took }

def evict_round (n : Int) (w : Progress ε) : Option (Progress ε) :=
  if w.s.tree.n_sampleable = 0 then
    if w.s.small_enabled && w.s.small_bytes > 0 then drop_small A w
    else some { w with stop := true }
  else evict_chunk A (chunk_of A (n - w.evicted)) w

def pn_evict_n (n : Int) : Option (State ε × Int) := do
  if n ≤ 0 then
    return (s, 0)
  let (s, evicted) ← evict_orphans A { s with has_evicted := true } n
  let w ← whileLoop (drains_small n) (drop_small A) (s.small.length + 1) { s := s, evicted := evicted }
  let w ← whileLoop (fun w => !w.stop && w.evicted < n) (evict_round A n) (n.toNat + 1) { w with stop := false }
  return (w.s, w.evicted)

/-- An eviction that frees nothing only prints a warning. -/
def pn_evict : Option (State ε) := (pn_evict_n A s 1).map (·.1)

/-! ## The other calls -/

def pn_remove (id : ObjId) : Option (State ε × Bool) :=
  match s.hashtable.lookup id with
  | none => some (s, false)
  | some obj => do
    let resident ← s.tree.is_resident id
    let s := if s.small_enabled && !resident then s.unlink_small id obj.obj_size else s
    let s ← s.mark_evicted id
    return (s.cache_remove_obj_base id obj, true)

def pn_record_request (ids : List ObjId) : Option (State ε) := do
  if ids.length ≤ 0 then
    return s
  let tree ← s.tree.add_sequence ids
  return { s with
    request_end_vtime := s.n_req + ids.length
    tree := tree
    extra := A.on_record_request s.extra ids }

def ops : CacheOps (State ε) where
  count_req s := { s with n_req := s.n_req + 1 }
  find s req := some (pn_find s req true)
  can_insert s req := some (s, !(req.obj_size > s.cache_size))
  get_occupied_byte s := s.occupied_byte
  obj_md_size _ := 0
  cache_size s := s.cache_size
  evict s _ := pn_evict A s
  insert s req := pn_insert s req

/-- `fuel` bounds the evictions: a score that is never below `DBL_MAX` makes the loop of the source
go round forever. -/
def pn_get (fuel : State ε → Nat) (s : State ε) (req : Request) : Option (State ε × Bool) :=
  (ops A).cache_get_base fuel s req

/-- `tiers` are the products of `cache_size` with `small_size_ratio`, if that is positive, and with
`ghost_size_ratio`, as `int64_t`. -/
def partial_node_cache_init (cache_size : Int) (tiers : Option (Int × Int)) (extra : ε) : State ε :=
  match tiers with
  | none => { cache_size := cache_size, extra := extra }
  | some (small_capacity, ghost_capacity) =>
    { cache_size := cache_size
      small_capacity := if small_capacity < 1 then 1 else small_capacity
      ghost := if ghost_capacity > 0 then some { cache_size := ghost_capacity } else none
      extra := extra }

inductive Call where
  | record_request (ids : List ObjId)
  | get (req : Request)
  | evict_n (n : Int)
  | remove (id : ObjId)

def call (fuel : State ε → Nat) (s : State ε) : Call → Option (State ε)
  | .record_request ids => pn_record_request A s ids
  | .get req => (pn_get A fuel s req).map (·.1)
  | .evict_n n => (pn_evict_n A s n).map (·.1)
  | .remove id => (pn_remove s id).map (·.1)

end CacheSim.PartialNode
