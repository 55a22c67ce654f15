import CacheSim.Fifo

/-!
# S3-FIFO (`S3FIFO.c`)

Objects enter the small queue. Those that were read there move on to the main queue, the others
leave an entry in the ghost queue, and an object that comes back from there enters the main queue.
-/

namespace CacheSim.S3fifo

open Lib

/-- `cache_t` with `S3FIFO_params_t`. The metadata of an object is its `S3FIFO.freq`. -/
structure State where
  cache_size : Int
  n_req : Int := 0
  small_fifo : Fifo Nat
  /-- `NULL` if its size would not be positive -/
  ghost_fifo : Option (Fifo Nat)
  main_fifo : Fifo Nat
  hit_on_ghost : Bool := false
  move_to_main_threshold : Int
  has_evicted : Bool := false

/-- The two sizes are the products of the ratios with the capacity, as `int64_t`. -/
def S3FIFO_init (cache_size small_fifo_size ghost_fifo_size move_to_main_threshold : Int) : State where
  cache_size := cache_size
  small_fifo := { cache_size := small_fifo_size }
  ghost_fifo := if ghost_fifo_size > 0 then some { cache_size := ghost_fifo_size } else none
  main_fifo := { cache_size := cache_size - small_fifo_size }
  move_to_main_threshold := move_to_main_threshold

namespace State

variable (s : State)

def S3FIFO_get_occupied_byte : Int := s.small_fifo.occupied_byte + s.main_fifo.occupied_byte

def S3FIFO_get_n_obj : Int := s.small_fifo.n_obj + s.main_fifo.n_obj

def remembers (id : ObjId) : Bool := s.ghost_fifo.any fun g => (g.q.lookup id).isSome

end State

variable (s : State)

def S3FIFO_probe (id : ObjId) : Option (FifoObj Nat) :=
  (s.small_fifo.q.lookup id).or (s.main_fifo.q.lookup id)

def remove_from_ghost (id : ObjId) : State × Bool :=
  match s.ghost_fifo with
  | none => (s, false)
  | some g => ({ s with ghost_fifo := some (g.FIFO_remove id).1 }, (g.FIFO_remove id).2)

def S3FIFO_find (req : Request) : State × Bool :=
  let s := { s with hit_on_ghost := false }
  match s.small_fifo.q.lookup req.obj_id with
  | some obj => ({ s with small_fifo := s.small_fifo.set_md req.obj_id obj (obj.md + 1) }, true)
  | none =>
    let (s, removed) := remove_from_ghost s req.obj_id
    let s := if removed then { s with hit_on_ghost := true } else s
    match s.main_fifo.q.lookup req.obj_id with
    | some obj => ({ s with main_fifo := s.main_fifo.set_md req.obj_id obj (obj.md + 1) }, true)
    | none => (s, false)

def S3FIFO_insert (req : Request) : State :=
  if s.hit_on_ghost then
    { s with hit_on_ghost := false, main_fifo := s.main_fifo.FIFO_insert req 0 }
  -- an object as large as the small queue is not inserted at all
  else if req.obj_size ≥ s.small_fifo.cache_size then s
  else if !s.has_evicted && s.small_fifo.occupied_byte ≥ s.small_fifo.cache_size then
    { s with main_fifo := s.main_fifo.FIFO_insert req 0 }
  else
    { s with small_fifo := s.small_fifo.FIFO_insert req 0 }

def insert_to_ghost (req : Request) : Option State :=
  match s.ghost_fifo with
  | none => some s
  | some g => (g.FIFO_get req).map fun r => { s with ghost_fifo := some r.1 }

def evict_small_step (w : State × Bool) : Option (State × Bool) := do
  let obj_to_evict ← w.1.small_fifo.FIFO_to_evict
  let req_local := copy_cache_obj_to_request obj_to_evict
  if obj_to_evict.2.md ≥ w.1.move_to_main_threshold then
    return ({ w.1 with
      main_fifo := w.1.main_fifo.FIFO_insert req_local 0
      small_fifo := (w.1.small_fifo.FIFO_remove req_local.obj_id).1 }, false)
  else
    let s ← insert_to_ghost w.1 req_local
    return ({ s with small_fifo := (s.small_fifo.FIFO_remove req_local.obj_id).1 }, true)

def S3FIFO_evict_small : Option State :=
  (whileLoop (fun w => !w.2 && w.1.small_fifo.occupied_byte > 0) evict_small_step
    s.small_fifo.q.entries.length (s, false)).map (·.1)

def evict_main_step (w : State × Bool) : Option (State × Bool) := do
  let obj_to_evict ← w.1.main_fifo.FIFO_to_evict
  let freq := obj_to_evict.2.md
  let main_fifo := (w.1.main_fifo.FIFO_remove obj_to_evict.1).1
  if freq ≥ 1 then
    return ({ w.1 with main_fifo := main_fifo.FIFO_insert (copy_cache_obj_to_request obj_to_evict) (min freq 3 - 1) },
      false)
  else
    return ({ w.1 with main_fifo := main_fifo }, true)

def chances (c : Fifo Nat) : Nat := (c.q.entries.map fun e => min e.2.md 3 + 1).sum

def S3FIFO_evict_main : Option State :=
  (whileLoop (fun w => !w.2 && w.1.main_fifo.occupied_byte > 0) evict_main_step
    (chances s.main_fifo) (s, false)).map (·.1)

def S3FIFO_evict : Option State :=
  let s := { s with has_evicted := true }
  if s.main_fifo.occupied_byte > s.main_fifo.cache_size ∨ s.small_fifo.occupied_byte = 0 then
    S3FIFO_evict_main s
  else
    S3FIFO_evict_small s

/-! ## The user's calls -/

def S3FIFO_remove (id : ObjId) : State × Bool :=
  let (small_fifo, removed) := s.small_fifo.FIFO_remove id
  if removed then ({ s with small_fifo := small_fifo }, true)
  else
    let (s, removed) := remove_from_ghost s id
    if removed then (s, true)
    else
      let (main_fifo, removed) := s.main_fifo.FIFO_remove id
      ({ s with main_fifo := main_fifo }, removed)

def S3FIFO_can_insert (allows : Int → Request → Bool) (s : State) (req : Request) : Bool :=
  req.obj_size ≤ s.small_fifo.cache_size && (allows s.n_req req && !(req.obj_size > s.cache_size))

def ops (allows : Int → Request → Bool) : CacheOps State where
  count_req s := { s with n_req := s.n_req + 1 }
  find s req := some (S3FIFO_find s req)
  can_insert s req := some (s, S3FIFO_can_insert allows s req)
  get_occupied_byte s := s.S3FIFO_get_occupied_byte
  obj_md_size _ := 0
  cache_size s := s.cache_size
  evict s _ := S3FIFO_evict s
  insert s req := some (S3FIFO_insert s req)

def S3FIFO_get (allows : Int → Request → Bool) (s : State) (req : Request) : Option (State × Bool) :=
  (ops allows).cache_get_base
    (fun s => 2 * s.small_fifo.q.entries.length + s.main_fifo.q.entries.length) s req

inductive Call where
  | get (req : Request)
  | evict

def call (allows : Int → Request → Bool) (s : State) : Call → Option State
  | .get req => (S3FIFO_get allows s req).map (·.1)
  | .evict => S3FIFO_evict s

def Call.Sized : Call → Prop
  | .get req => 1 ≤ req.obj_size
  | .evict => True

end CacheSim.S3fifo
