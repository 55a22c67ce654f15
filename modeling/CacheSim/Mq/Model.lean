import CacheSim.Fifo

/-!
# Multi-queue (`MQ.c`)

An object stands in the queue of its frequency, and sinks one queue down when it is not read for a
lifetime. The ids and frequencies of evicted objects are remembered in `Qout`.
-/

namespace CacheSim.Mq

open Lib Function

def INT32_MAX : Nat := 2 ^ 31 - 1

/-- A resident object: its size, its frequency and `MQ_obj_metadata_t`. -/
structure Obj where
  obj_size : Int
  freq : Nat
  expire_time : Int := 0
  queue_id : Nat := 0
deriving DecidableEq, Repr

/-- `cache_t` with `MQ_params_t`. An entry of `Qout` carries the frequency of the evicted object. -/
structure State where
  cache_size : Int
  obj_md_size : Int
  n_req : Int := 0
  occupied_byte : Int := 0
  n_obj : Int := 0
  hashtable : Table ObjId Obj := ∅
  /-- each from its head, the MRU end -/
  queues : Nat → List ObjId := fun _ => []
  queue_n_bytes : Nat → Int := fun _ => 0
  queue_n_objs : Nat → Int := fun _ => 0
  n_queues : Nat
  lifetime : Int
  Qout : Fifo Nat
  hit_on_ghost : Bool := false
  ghost_freq : Nat := 0
  ghost_obj_id : ObjId := 0
  vtime : Int := 0

/-- `Qout_size` is the product of the ratio with the capacity, as `uint64_t`. -/
def MQ_init (cache_size : Int) (consider_obj_metadata : Bool) (n_queues : Nat) (lifetime Qout_size : Int) : State where
  cache_size := cache_size
  obj_md_size := if consider_obj_metadata then 14 else 0
  n_queues := n_queues
  lifetime := lifetime
  Qout := { cache_size := Qout_size }

def halvings : Nat → Nat → Nat
  | 0, _ => 0
  | n + 1, freq => if freq > 1 then halvings n (freq >>> 1) + 1 else 0

variable (s : State)

def MQ_queue_num (freq : Nat) : Nat := halvings (s.n_queues - 1) freq

def MQ_queue_link (id : ObjId) (obj : Obj) (queue : Nat) : State :=
  { s with
    queues := update s.queues queue (id :: s.queues queue)
    queue_n_bytes := update s.queue_n_bytes queue (s.queue_n_bytes queue + (obj.obj_size + s.obj_md_size))
    queue_n_objs := update s.queue_n_objs queue (s.queue_n_objs queue + 1)
    hashtable := s.hashtable.insert id { obj with queue_id := queue } }

def MQ_queue_unlink (id : ObjId) (obj : Obj) : State :=
  let queue := obj.queue_id
  { s with
    queues := update s.queues queue ((s.queues queue).erase id)
    queue_n_bytes := update s.queue_n_bytes queue (s.queue_n_bytes queue - (obj.obj_size + s.obj_md_size))
    queue_n_objs := update s.queue_n_objs queue (s.queue_n_objs queue - 1) }

/-- The turn of queue `k` in `MQ_adjust`. It fails if the tail is not an object of the cache. -/
def adjust_queue (k : Nat) : Option State :=
  match (s.queues k).getLast? with
  | none => some s
  | some id => do
    let obj ← s.hashtable.lookup id
    if obj.expire_time < s.vtime then
      return MQ_queue_link (MQ_queue_unlink s id obj) id { obj with expire_time := s.vtime + s.lifetime } (k - 1)
    else
      return s

def MQ_adjust : Option State :=
  (List.range' 1 (s.n_queues - 1)).foldlM adjust_queue { s with vtime := s.vtime + 1 }

def next_freq (freq : Nat) : Nat := if freq < INT32_MAX then freq + 1 else freq

def MQ_probe (id : ObjId) : Option Obj := s.hashtable.lookup id

def MQ_find (req : Request) : Option (State × Bool) :=
  match s.hashtable.lookup req.obj_id with
  | some obj => do
    let s := MQ_queue_unlink s req.obj_id obj
    let freq := next_freq obj.freq
    let s := MQ_queue_link s req.obj_id { obj with freq := freq, expire_time := s.vtime + s.lifetime } (MQ_queue_num s freq)
    let s ← MQ_adjust s
    return (s, true)
  | none =>
    let s := { s with hit_on_ghost := false, ghost_freq := 0, ghost_obj_id := 0 }
    match s.Qout.q.lookup req.obj_id with
    | some ghost_obj => some ({ s with
        hit_on_ghost := true
        ghost_freq := ghost_obj.md
        ghost_obj_id := req.obj_id
        Qout := (s.Qout.FIFO_remove req.obj_id).1 }, false)
    | none => some (s, false)

def MQ_insert (req : Request) : Option State :=
  let freq := if s.hit_on_ghost && s.ghost_obj_id == req.obj_id then next_freq s.ghost_freq else 1
  let s := { s with
    occupied_byte := s.occupied_byte + (req.obj_size + s.obj_md_size)
    n_obj := s.n_obj + 1
    hit_on_ghost := false, ghost_freq := 0, ghost_obj_id := 0 }
  MQ_adjust (MQ_queue_link s req.obj_id
    { obj_size := req.obj_size, freq := freq, expire_time := s.vtime + s.lifetime } (MQ_queue_num s freq))

/-! ## Eviction and removal -/

def MQ_to_evict : Option ObjId := (List.range s.n_queues).findSome? fun i => (s.queues i).getLast?

def cache_remove_obj_base (id : ObjId) (obj : Obj) : State :=
  { s with
    hashtable := s.hashtable.erase id
    occupied_byte := s.occupied_byte - (obj.obj_size + s.obj_md_size)
    n_obj := s.n_obj - 1 }

/-- `Qout` takes the id in, unless the object is too large for it, and its entry gets the frequency. -/
def MQ_evict : Option State := do
  let id ← MQ_to_evict s
  let obj ← s.hashtable.lookup id
  let (Qout, _) ← s.Qout.FIFO_get { obj_id := id, obj_size := obj.obj_size }
  let Qout := match Qout.q.lookup id with
    | none => Qout
    | some ghost_obj => Qout.set_md id ghost_obj obj.freq
  return cache_remove_obj_base (MQ_queue_unlink { s with Qout := Qout } id obj) id obj

/-- Unlike its siblings it drops the entry of the ghost queue first, and that does not count. -/
def MQ_remove (id : ObjId) : State × Bool :=
  let s := { s with Qout := (s.Qout.FIFO_remove id).1 }
  match s.hashtable.lookup id with
  | none => (s, false)
  | some obj => (cache_remove_obj_base (MQ_queue_unlink s id obj) id obj, true)

def ops (allows : Int → Request → Bool) : CacheOps State where
  count_req s := { s with n_req := s.n_req + 1 }
  find s req := MQ_find s req
  can_insert s req := some (s, allows s.n_req req && !(req.obj_size + s.obj_md_size > s.cache_size))
  get_occupied_byte s := s.occupied_byte
  obj_md_size s := s.obj_md_size
  cache_size s := s.cache_size
  evict s _ := MQ_evict s
  insert s req := MQ_insert s req

def MQ_get (allows : Int → Request → Bool) (s : State) (req : Request) : Option (State × Bool) :=
  (ops allows).cache_get_base (fun s => s.hashtable.entries.length) s req

inductive Call where
  | get (req : Request)
  | remove (id : ObjId)

def call (allows : Int → Request → Bool) (s : State) : Call → Option State
  | .get req => (MQ_get allows s req).map (·.1)
  | .remove id => some (MQ_remove s id).1

end CacheSim.Mq
