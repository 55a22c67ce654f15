import CacheSim.Fifo
import CacheSim.Lib.Heap

/-!
# WorkloadAware (`cpp/WorkloadAware.cpp`)

Each workload class has an LRU list, whose front is the only block that the class offers. A heap over
the fronts is rebuilt when the clock has moved. `choose_victim` takes the entry of its victim off the
heap.
-/

namespace CacheSim.WorkloadAware

open Lib

structure BlockMeta (D : Type) where
  category : Nat
  last_access : D
  offset : Int
  resident : Bool := false

structure CategoryQueue (D : Type) where
  /-- from the least recently accessed -/
  lru : List ObjId := []
  mean_gap : D

structure HeadEntry (D : Type) where
  reuse_prob : D
  neg_offset : Int
  seq : Nat
  category : Nat
  head : ObjId
deriving DecidableEq

/-- What the policy computes with doubles. -/
structure Doubles (D : Type) where
  zero : D
  /-- `-1.0`, the clock of a heap that has to be rebuilt -/
  unset : D
  kDefaultMeanGap : D
  sub : D → D → D
  /-- `gap > 0.0` -/
  positive : D → Bool
  /-- `now + 1.0` -/
  tick : D → D
  /-- the mean of the gaps and a new gap -/
  ewma : D → D → D
  /-- of the mean gap of the class, the life and the idle time -/
  reuse_prob : D → D → D → D

/-- `cache_t` with the class `WorkloadAware`. The order of the table of `cache` says nothing. -/
structure State (D : Type) where
  cache : Fifo Unit
  now : D
  life : D
  cur_category : Nat := 0
  hooked : Bool := false
  metas : Table ObjId (BlockMeta D) := ∅
  queues : Table Nat (CategoryQueue D) := ∅
  category_order : List Nat := []
  head_heap : List (HeadEntry D) := []
  heap_clock : D
  seq : Nat := 0

variable {D : Type} [LinearOrder D] (F : Doubles D)

def WorkloadAware_init (cache_size : Int) : State D where
  cache := { cache_size := cache_size }
  now := F.zero
  life := F.kDefaultMeanGap
  heap_clock := F.unset

variable (s : State D)

def queue (category : Nat) : CategoryQueue D :=
  (s.queues.lookup category).getD { mean_gap := F.kDefaultMeanGap }

def set_queue (category : Nat) (q : CategoryQueue D) : State D :=
  { s with
    queues := s.queues.insert category q
    category_order := if category ∈ s.queues then s.category_order else s.category_order ++ [category] }

def reuse_prob (id : ObjId) : D :=
  match s.metas.lookup id with
  | none => F.zero
  | some m => F.reuse_prob (queue F s m.category).mean_gap s.life (F.sub s.now m.last_access)

def category_head (category : Nat) : Option ObjId :=
  (s.queues.lookup category).bind fun q => q.lru.head?

def make_resident (id : ObjId) (m : BlockMeta D) : State D :=
  let q := queue F s m.category
  let s := set_queue s m.category { q with lru := q.lru ++ [id] }
  { s with metas := s.metas.insert id { m with resident := true } }

def to_mru (q : CategoryQueue D) (id : ObjId) : CategoryQueue D := { q with lru := q.lru.erase id ++ [id] }

def forget (id : ObjId) : State D :=
  match s.metas.lookup id with
  | none => s
  | some m =>
    let s := { s with metas := s.metas.erase id }
    match s.queues.lookup m.category with
    | none => s
    | some q => if m.resident then { s with queues := s.queues.insert m.category { q with lru := q.lru.erase id } } else s

/-- The order of the heap: the reuse probability, then the deeper block, then the older entry. -/
def HeadEntry.before (a b : HeadEntry D) : Bool :=
  if a.reuse_prob ≠ b.reuse_prob then a.reuse_prob < b.reuse_prob
  else if a.neg_offset ≠ b.neg_offset then a.neg_offset < b.neg_offset
  else a.seq < b.seq

def head_entry (seq category : Nat) (head : ObjId) : HeadEntry D where
  reuse_prob := reuse_prob F s head
  neg_offset := -((s.metas.lookup head).elim 0 fun m => m.offset)
  seq := seq
  category := category
  head := head

def push_head (category : Nat) (head : ObjId) : State D :=
  { s with head_heap := head_entry F s s.seq category head :: s.head_heap, seq := s.seq + 1 }

/-- One entry for each class with residents, in the order of the classes. -/
def rebuild_heap : State D :=
  let s := s.category_order.foldl (fun s category =>
    match category_head s category with
    | none => s
    | some head => push_head F s category head) { s with head_heap := [] }
  { s with heap_clock := s.now }

/-- The variables of the loop of `choose_victim`. -/
structure Pops (D : Type) where
  s : State D
  out : Option ObjId := none

def pop_step (w : Pops D) : Option (Pops D) := do
  let top ← top HeadEntry.before w.s.head_heap
  let s := { w.s with head_heap := w.s.head_heap.erase top }
  match category_head s top.category with
  | none => return { w with s := s }
  | some cur => if cur ≠ top.head then return { w with s := push_head F s top.category cur } else return { s := s, out := some cur }

/-- An entry is re-keyed at most once before it is taken or dropped. -/
def pop_heads : Option (Pops D) :=
  whileLoop (fun w : Pops D => w.out.isNone && !w.s.head_heap.isEmpty) (pop_step F) (2 * s.head_heap.length) { s := s }

def first_head : Option ObjId := s.category_order.findSome? (category_head s)

def choose_victim : Option (State D × Option ObjId) := do
  let s := if s.heap_clock ≠ s.now then rebuild_heap F s else s
  let w ← pop_heads F s
  return (w.s, w.out.or (first_head w.s))

def repush_after_eviction (category : Nat) : State D :=
  match category_head s category with
  | none => s
  | some next => push_head F s category next

/-! ## The operations -/

/-- The gap since the last access counts for the life of all blocks and for the mean of the class. -/
def learn_gap (m : BlockMeta D) : State D × CategoryQueue D :=
  let gap := F.sub s.now m.last_access
  let q := queue F s m.category
  if F.positive gap then
    ({ s with life := F.ewma s.life gap }, { q with mean_gap := F.ewma q.mean_gap gap })
  else (s, q)

def WorkloadAware_find (req : Request) : State D × Bool :=
  let hit := (s.cache.q.lookup req.obj_id).isSome
  if s.hooked then (s, hit)
  else
    let s := match if hit then s.metas.lookup req.obj_id else none with
      | none => s
      | some m =>
        let (s, q) := learn_gap F s m
        let s := set_queue s m.category (if m.resident then to_mru q req.obj_id else q)
        { s with metas := s.metas.insert req.obj_id { m with last_access := s.now } }
    ({ s with now := F.tick s.now, heap_clock := F.unset }, hit)

def WorkloadAware_insert (req : Request) : State D :=
  let s := { s with cache := s.cache.FIFO_insert req () }
  match s.metas.lookup req.obj_id with
  | some m => if m.resident then s else make_resident F s req.obj_id m
  | none => make_resident F s req.obj_id { category := s.cur_category, last_access := s.now, offset := 0 }

def WorkloadAware_to_evict : Option (State D × Option ObjId) := do
  let (s, victim) ← choose_victim F s
  return (s, victim.filter fun id => (s.cache.q.lookup id).isSome)

def WorkloadAware_evict : Option (State D) := do
  let (s, victim) ← choose_victim F s
  let victim ← victim
  let obj ← s.cache.q.lookup victim
  let category := (s.metas.lookup victim).elim 0 fun m => m.category
  let s := forget s victim
  let s := { s with cache := s.cache.cache_remove_obj_base victim obj }
  return repush_after_eviction F s category

def WorkloadAware_remove (id : ObjId) : State D × Bool :=
  match s.cache.q.lookup id with
  | none => (s, false)
  | some obj =>
    let s := forget s id
    ({ s with cache := s.cache.cache_remove_obj_base id obj }, true)

def WorkloadAware_set_request_ctx (category : Nat) (timestamp : D) : State D :=
  { s with cur_category := category, now := timestamp, heap_clock := F.unset }

def record_block (e : ObjId × Nat) : State D :=
  let (id, i) := e
  match s.metas.lookup id with
  | some m =>
    let s := if F.positive (F.sub s.now m.last_access) then
        let (s, q) := learn_gap F s m
        set_queue s m.category (if m.resident then to_mru q id else q)
      else s
    { s with metas := s.metas.insert id { m with last_access := s.now } }
  | none => { s with metas := s.metas.insert id { category := s.cur_category, last_access := s.now, offset := i } }

def WorkloadAware_record_request (ids : List ObjId) : State D :=
  let s := ids.zipIdx.foldl (record_block F) { s with hooked := true }
  { s with heap_clock := F.unset }

def ops : CacheOps (State D) where
  count_req s := { s with cache := { s.cache with n_req := s.cache.n_req + 1 } }
  find s req := some (WorkloadAware_find F s req)
  can_insert s req := some (s, !(req.obj_size + s.cache.obj_md_size > s.cache.cache_size))
  get_occupied_byte s := s.cache.occupied_byte
  obj_md_size s := s.cache.obj_md_size
  cache_size s := s.cache.cache_size
  evict s _ := WorkloadAware_evict F s
  insert s req := some (WorkloadAware_insert F s req)

def WorkloadAware_get (req : Request) : Option (State D × Bool) :=
  (ops F).cache_get_base (fun s => s.cache.q.entries.length) s req

inductive Call (D : Type) where
  | get (req : Request)
  | to_evict
  | evict
  | remove (id : ObjId)
  | set_request_ctx (category : Nat) (timestamp : D)
  | record_request (ids : List ObjId)

def call : Call D → Option (State D)
  | .get req => (WorkloadAware_get F s req).map (·.1)
  | .to_evict => (WorkloadAware_to_evict F s).map (·.1)
  | .evict => WorkloadAware_evict F s
  | .remove id => some (WorkloadAware_remove s id).1
  | .set_request_ctx category timestamp => some (WorkloadAware_set_request_ctx F s category timestamp)
  | .record_request ids => some (WorkloadAware_record_request F s ids)

end CacheSim.WorkloadAware
