import CacheSim.Fifo
import CacheSim.Lib.Heap

/-!
# AsymCache (`cpp/AsymCache.cpp`)

Two heaps hold the blocks by the branch of their decay function. Entries are not taken off when a
block is accessed or leaves: `peek_valid` drops them, or files them anew, when they come to the top.
-/

namespace CacheSim.AsymCache

open Lib

structure BlockMeta (D : Type) where
  last_access : D
  cost : D
  resident : Bool := false

structure HeapEntry (D : Type) where
  key : D
  seq : Nat
  id : ObjId
  snapshot : D
deriving DecidableEq

/-- What the policy computes with doubles. `P` holds the parameters that `freeze` fits. -/
structure Doubles (D P : Type) where
  zero : D
  /-- the `cost` of a block before its insertion -/
  one : D
  /-- the parameters before `freeze` -/
  unfitted : P
  /-- `freeze`, of the gaps in the order of their arrival -/
  fit : List D → P
  sub : D → D → D
  /-- `gap <= 0.0` -/
  no_gap : D → Bool
  /-- `now + 1.0` -/
  tick : D → D
  ofInt : Int → D
  /-- `seg_of` at the time `now`: whether the branch is the first -/
  young : P → D → D → Bool
  /-- `key_of` of the last access and the cost, for branch 1 or 2 -/
  key : P → Bool → D → D → D
  /-- `expected_cost` at the time `now`, of the last access and the cost -/
  expected_cost : P → D → D → D → D
  /-- `expected_cost(a) <= expected_cost(b)` -/
  le : D → D → Bool

def kGapSampleCap : Nat := 200000

/-- `cache_t` with the class `AsymCache`. The order of the table of `cache` says nothing. -/
structure State (D P : Type) where
  cache : Fifo Unit
  hooked : Bool := false
  now : D
  frozen : Bool := false
  fitted : P
  gaps : List D := []
  metas : Table ObjId (BlockMeta D) := ∅
  n_resident : Int := 0
  h1 : List (HeapEntry D) := []
  h2 : List (HeapEntry D) := []
  seq : Nat := 0

variable {D P : Type} [LinearOrder D] (F : Doubles D P)

def AsymCache_init (cache_size : Int) : State D P where
  cache := { cache_size := cache_size }
  now := F.zero
  fitted := F.unfitted

/-! ## The heaps -/

/-- `seg_of(m) == 1` -/
def young (s : State D P) (m : BlockMeta D) : Bool := F.young s.fitted s.now m.last_access

def HeapEntry.before (a b : HeapEntry D) : Bool := if a.key ≠ b.key then a.key < b.key else a.seq < b.seq

def entry (s : State D P) (seq : Nat) (id : ObjId) (m : BlockMeta D) : HeapEntry D where
  key := F.key s.fitted (young F s m) m.last_access m.cost
  seq := seq
  id := id
  snapshot := m.last_access

def file (s : State D P) (id : ObjId) (m : BlockMeta D) : State D P :=
  let e := entry F s s.seq id m
  if young F s m then { s with h1 := e :: s.h1, seq := s.seq + 1 } else { s with h2 := e :: s.h2, seq := s.seq + 1 }

/-- `order` is the order in which the hash map of the blocks is walked. -/
def compact (order : Table ObjId (BlockMeta D) → List ObjId) (s : State D P) : State D P :=
  (order s.metas).foldl (fun s id =>
    match s.metas.lookup id with
    | none => s
    | some m => if m.resident then file F s id m else s) { s with h1 := [], h2 := [] }

variable (order : Table ObjId (BlockMeta D) → List ObjId) (s : State D P)

def push (id : ObjId) (m : BlockMeta D) : State D P :=
  let s := file F s id m
  if (s.h1.length + s.h2.length : Int) > 3 * s.n_resident + 2048 then compact F order s else s

def freeze : State D P :=
  compact F order { s with fitted := F.fit s.gaps, gaps := [], frozen := true }

def heap (first : Bool) (s : State D P) : List (HeapEntry D) := if first then s.h1 else s.h2

def set_heap (first : Bool) (s : State D P) (h : List (HeapEntry D)) : State D P :=
  if first then { s with h1 := h } else { s with h2 := h }

def valid (first : Bool) (e : HeapEntry D) : Bool :=
  (s.metas.lookup e.id).any fun m => m.resident && m.last_access = e.snapshot && young F s m == first

/-- The variables of the loop of `peek_valid`. -/
structure Peek (D P : Type) where
  s : State D P
  out : Option ObjId := none

def peek_step (first : Bool) (w : Peek D P) : Option (Peek D P) := do
  let top ← top HeapEntry.before (heap first w.s)
  let popped := set_heap first w.s ((heap first w.s).erase top)
  match w.s.metas.lookup top.id with
  | none => return { w with s := popped }
  | some m =>
    if !m.resident then return { w with s := popped }
    else if !valid F w.s first top then return { w with s := push F order popped top.id m }
    else return { w with out := some top.id }

def peek_valid (first : Bool) (s : State D P) : Option (Peek D P) :=
  whileLoop (fun w : Peek D P => w.out.isNone && !(heap first w.s).isEmpty) (peek_step F order first)
    ((heap first s).length + 2) { s := s }

def expected_cost (id : ObjId) : D :=
  (s.metas.lookup id).elim F.zero fun m => F.expected_cost s.fitted s.now m.last_access m.cost

def pick : Option ObjId → Option ObjId → Option ObjId
  | some c1, some c2 => some (if F.le (expected_cost F s c1) (expected_cost F s c2) then c1 else c2)
  | some c1, none => some c1
  | none, c2 => c2

def choose_victim : Option (State D P × Option ObjId) := do
  if s.n_resident ≤ 0 then return (s, none)
  let s := if s.frozen then s else freeze F order s
  let w1 ← peek_valid F order true s
  let w2 ← peek_valid F order false w1.s
  match pick F w2.s w1.out w2.out with
  | some out => return (w2.s, some out)
  | none => do
    let s := compact F order w2.s
    let w1 ← peek_valid F order true s
    match w1.out with
    | some c1 => return (w1.s, some c1)
    | none => do
      let w2 ← peek_valid F order false w1.s
      return (w2.s, w2.out.or ((order w2.s.metas).find? fun id => (w2.s.metas.lookup id).any fun m => m.resident))

def forget (id : ObjId) : State D P :=
  match s.metas.lookup id with
  | none => s
  | some m => { s with n_resident := if m.resident then s.n_resident - 1 else s.n_resident, metas := s.metas.erase id }

def observe_gap (gap : D) : State D P :=
  if s.frozen || F.no_gap gap || s.gaps.length ≥ kGapSampleCap then s else { s with gaps := s.gaps ++ [gap] }

/-! ## The operations -/

def AsymCache_find (req : Request) : State D P × Bool :=
  let hit := (s.cache.q.lookup req.obj_id).isSome
  if s.hooked then (s, hit)
  else
    let s := match if hit then s.metas.lookup req.obj_id else none with
      | none => s
      | some m =>
        let s := observe_gap F s (F.sub s.now m.last_access)
        let m := { m with last_access := s.now }
        let s := { s with metas := s.metas.insert req.obj_id m }
        if s.frozen then push F order s req.obj_id m else s
    ({ s with now := F.tick s.now }, hit)

def AsymCache_insert (req : Request) : State D P :=
  let s := { s with cache := s.cache.FIFO_insert req () }
  let m : BlockMeta D := match s.metas.lookup req.obj_id with
    | none => { last_access := s.now, cost := F.ofInt req.obj_cost }
    | some m => { m with cost := F.ofInt req.obj_cost }
  let s := { s with
    n_resident := if m.resident then s.n_resident else s.n_resident + 1
    metas := s.metas.insert req.obj_id { m with resident := true } }
  if s.frozen then push F order s req.obj_id { m with resident := true } else s

def AsymCache_to_evict : Option (State D P × Option ObjId) := do
  let (s, victim) ← choose_victim F order s
  return (s, victim.filter fun id => (s.cache.q.lookup id).isSome)

def AsymCache_evict : Option (State D P) := do
  let (s, victim) ← choose_victim F order s
  let victim ← victim
  let obj ← s.cache.q.lookup victim
  let s := forget s victim
  return { s with cache := s.cache.cache_remove_obj_base victim obj }

def AsymCache_remove (id : ObjId) : State D P × Bool :=
  match s.cache.q.lookup id with
  | none => (s, false)
  | some obj =>
    let s := forget s id
    ({ s with cache := s.cache.cache_remove_obj_base id obj }, true)

def AsymCache_set_request_ctx (timestamp : D) : State D P := { s with now := timestamp }

def record_block (id : ObjId) : State D P :=
  match s.metas.lookup id with
  | some m =>
    let s := observe_gap F s (F.sub s.now m.last_access)
    { s with metas := s.metas.insert id { m with last_access := s.now } }
  | none => { s with metas := s.metas.insert id { last_access := s.now, cost := F.one } }

def AsymCache_record_request (ids : List ObjId) : State D P :=
  ids.foldl (record_block F) { s with hooked := true }

def ops : CacheOps (State D P) where
  count_req s := { s with cache := { s.cache with n_req := s.cache.n_req + 1 } }
  find s req := some (AsymCache_find F order s req)
  can_insert s req := some (s, !(req.obj_size + s.cache.obj_md_size > s.cache.cache_size))
  get_occupied_byte s := s.cache.occupied_byte
  obj_md_size s := s.cache.obj_md_size
  cache_size s := s.cache.cache_size
  evict s _ := AsymCache_evict F order s
  insert s req := some (AsymCache_insert F order s req)

def AsymCache_get (req : Request) : Option (State D P × Bool) :=
  (ops F order).cache_get_base (fun s => s.cache.q.entries.length) s req

inductive Call (D : Type) where
  | get (req : Request)
  | to_evict
  | evict
  | remove (id : ObjId)
  | set_request_ctx (timestamp : D)
  | record_request (ids : List ObjId)

def call : Call D → Option (State D P)
  | .get req => (AsymCache_get F order s req).map (·.1)
  | .to_evict => (AsymCache_to_evict F order s).map (·.1)
  | .evict => AsymCache_evict F order s
  | .remove id => some (AsymCache_remove s id).1
  | .set_request_ctx timestamp => some (AsymCache_set_request_ctx s timestamp)
  | .record_request ids => some (AsymCache_record_request F s ids)

end CacheSim.AsymCache
