import CacheSim.Clock
import CacheSim.Lib.Double

/-!
# S3-FIFO with queue sizes that adapt (`S3FIFOd.c`)

Hits on what was evicted lately from the small queue and from the main cache move the boundary between
the two. The main cache is a policy of its own.

`S3FIFOd_evict` removes an object, which frees it, and then reads its frequency. What such a read yields is
a parameter, and the state keeps a record of these reads.
-/

namespace CacheSim.S3fifod

open Lib

/-- The function pointers of `main_fifo` that are called. -/
structure MainPolicy (σ : Type) where
  ops : CacheOps σ
  n_obj : σ → Nat
  /-- whether `find(main_fifo, req, false)` returns an object -/
  probe : σ → ObjId → Bool
  /-- what is copied from the object that `to_evict` returns -/
  to_evict : σ → Option Request
  /-- an assignment to `main_fifo->cache_size` -/
  set_cache_size : σ → Int → σ

variable {σ : Type} (P : MainPolicy σ)

/-- `cache_t` with `S3FIFOd_params_t`. The metadata of an object in the small queue is its `freq`. -/
structure State (σ : Type) where
  cache_size : Int
  n_req : Int := 0
  small_fifo : Fifo Nat
  ghost_fifo : Fifo Nat
  main_fifo : σ
  hit_on_ghost : Bool := false
  move_to_main_threshold : Int
  small_eviction : Fifo Nat
  main_eviction : Fifo Nat
  small_eviction_hit : Int := 0
  main_eviction_hit : Int := 0
  /-- what was read as the frequency of a freed object, beside the one that the object had -/
  freed_reads : List (Int × Nat) := []

def scale (n : Int) (ratio : ℚ) : Int := ⌊to_double (to_double n * ratio)⌋

def small_fifo_size_ratio : ℚ := 3602879701896397 / 2 ^ 55

def hit_decay : ℚ := 3602879701896397 / 2 ^ 52

/-- `none` when the sizes are invalid, which ends the program. -/
def S3FIFOd_init (main_init : Int → σ) (cache_size move_to_main_threshold : Int) : Option (State σ) := do
  let fifo_cache_size := scale cache_size small_fifo_size_ratio
  let main_fifo_size := cache_size - fifo_cache_size
  guard ¬ (fifo_cache_size ≤ 0 ∨ main_fifo_size ≤ 0)
  return {
    cache_size := cache_size
    small_fifo := { cache_size := fifo_cache_size }
    ghost_fifo := { cache_size := main_fifo_size }
    main_fifo := main_init main_fifo_size
    move_to_main_threshold := move_to_main_threshold
    small_eviction := { cache_size := cache_size / 10 }
    main_eviction := { cache_size := cache_size / 10 } }

variable (s : State σ)

def S3FIFOd_get_occupied_byte : Int := s.small_fifo.occupied_byte + P.ops.get_occupied_byte s.main_fifo

def move_boundary (step : Int) : State σ :=
  { s with
    small_fifo := { s.small_fifo with cache_size := s.small_fifo.cache_size + step }
    ghost_fifo := { s.ghost_fifo with cache_size := s.ghost_fifo.cache_size + step }
    main_fifo := P.set_cache_size s.main_fifo (P.ops.cache_size s.main_fifo - step) }

def S3FIFOd_update_fifo_size : State σ :=
  -- `step` is an `int`
  let step := (max 1 ((min s.small_fifo.cache_size (P.ops.cache_size s.main_fifo)).tdiv 1000)).bmod (2 ^ 32)
  let cond1 := s.small_eviction_hit + s.main_eviction_hit > 100
  let cond2 := s.main_eviction.occupied_byte > 0
  let s := if cond2 then s else { s with small_eviction_hit := 0, main_eviction_hit := 0 }
  if cond1 ∧ cond2 then
    let s :=
      if s.small_eviction_hit > s.main_eviction_hit * 2 then
        if P.ops.cache_size s.main_fifo > s.cache_size.tdiv 100 then move_boundary P s step else s
      else if s.main_eviction_hit > s.small_eviction_hit * 2 then
        if s.small_fifo.cache_size > s.cache_size.tdiv 100 then move_boundary P s (-step) else s
      else s
    { s with
      small_eviction_hit := scale s.small_eviction_hit hit_decay
      main_eviction_hit := scale s.main_eviction_hit hit_decay }
  else s

/-- `find` and `remove` on one of the records of evictions, and whether the object was there. -/
def take_record (c : Fifo Nat) (req : Request) : Fifo Nat × Bool :=
  if (c.q.lookup req.obj_id).isSome then ((c.FIFO_remove req.obj_id).1, true) else (c, false)

variable (req : Request)

def S3FIFOd_find : Option (State σ × Bool) :=
  let s := { s with hit_on_ghost := false }
  match s.small_fifo.q.lookup req.obj_id with
  | some obj => some ({ s with small_fifo := s.small_fifo.set_md req.obj_id obj (obj.md + 1) }, true)
  | none => do
    let (ghost_fifo, removed) := s.ghost_fifo.FIFO_remove req.obj_id
    let s := { s with ghost_fifo := ghost_fifo, hit_on_ghost := removed }
    let (main_fifo, hit) ← P.ops.find s.main_fifo req
    let (small_eviction, small_hit) := take_record s.small_eviction req
    let (main_eviction, main_hit) := take_record s.main_eviction req
    return ({ s with
      main_fifo := main_fifo
      small_eviction := small_eviction
      small_eviction_hit := s.small_eviction_hit + if small_hit then 1 else 0
      main_eviction := main_eviction
      main_eviction_hit := s.main_eviction_hit + if main_hit then 1 else 0 }, hit)

def S3FIFOd_probe (id : ObjId) : Bool := (s.small_fifo.q.lookup id).isSome || P.probe s.main_fifo id

def main_get (main_fifo : σ) (req : Request) : Option (σ × Bool) := P.ops.cache_get_base P.n_obj main_fifo req

/-- `none` when the main cache did not take the object: `obj` is null then, and is followed. -/
def S3FIFOd_insert : Option (State σ) :=
  if s.hit_on_ghost then do
    let (main_fifo, _) ← main_get P s.main_fifo req
    guard (P.probe main_fifo req.obj_id)
    return { s with hit_on_ghost := false, main_fifo := main_fifo }
  else some { s with small_fifo := s.small_fifo.FIFO_insert req 0 }

/-- The victim of the main cache is recorded before it goes. -/
def evict_from_main : Option (State σ) := do
  let req_local ← P.to_evict s.main_fifo
  let (main_eviction, _) ← s.main_eviction.FIFO_get req_local
  let main_fifo ← P.ops.evict s.main_fifo req
  return { s with main_eviction := main_eviction, main_fifo := main_fifo }

/-- `freed k` is what the read of a freed object yields after `k` such reads. -/
def S3FIFOd_evict (freed : Nat → Int) (s : State σ) (req : Request) : Option (State σ) :=
  if s.small_fifo.occupied_byte = 0 then do
    guard (P.ops.get_occupied_byte s.main_fifo ≤ s.cache_size)
    evict_from_main P s req
  else do
    let obj ← s.small_fifo.FIFO_to_evict
    let req_local := copy_cache_obj_to_request obj
    let (small_fifo, removed) := s.small_fifo.FIFO_remove req_local.obj_id
    guard removed
    -- `obj->freq`, after `remove` has freed the object
    let freq := freed s.freed_reads.length
    let s := { s with small_fifo := small_fifo, freed_reads := s.freed_reads ++ [(freq, obj.2.md)] }
    if freq ≥ s.move_to_main_threshold then do
      let main_fifo ← P.ops.insert s.main_fifo req_local
      whileLoop (fun s => P.ops.get_occupied_byte s.main_fifo > P.ops.cache_size s.main_fifo) (evict_from_main P · req)
        (P.n_obj main_fifo) { s with main_fifo := main_fifo }
    else do
      let (ghost_fifo, _) ← s.ghost_fifo.FIFO_get req_local
      let (small_eviction, _) ← s.small_eviction.FIFO_get req_local
      return { s with ghost_fifo := ghost_fifo, small_eviction := small_eviction }

/-! ## The user's call -/

def S3FIFOd_can_insert : Bool :=
  req.obj_size ≤ s.small_fifo.cache_size && !(req.obj_size > s.cache_size)

def ops (freed : Nat → Int) : CacheOps (State σ) where
  count_req s := { s with n_req := s.n_req + 1 }
  find s req := S3FIFOd_find P s req
  can_insert s req := some (s, S3FIFOd_can_insert s req)
  get_occupied_byte s := S3FIFOd_get_occupied_byte P s
  obj_md_size _ := 0
  cache_size s := s.cache_size
  evict s req := S3FIFOd_evict P freed s req
  insert s req := S3FIFOd_insert P s req

def evictions_left : Nat := 2 * s.small_fifo.q.entries.length + P.n_obj s.main_fifo

def S3FIFOd_get (freed : Nat → Int) (s : State σ) (req : Request) : Option (State σ × Bool) :=
  (ops P freed).cache_get_base (evictions_left P) (S3FIFOd_update_fifo_size P s) req

def queue_policy {μ : Type} (ops : CacheOps (Fifo μ)) : MainPolicy (Fifo μ) where
  ops := ops
  n_obj c := c.q.entries.length
  probe c id := (c.q.lookup id).isSome
  to_evict c := c.FIFO_to_evict.map copy_cache_obj_to_request
  set_cache_size c cache_size := { c with cache_size := cache_size }

def fifo : MainPolicy (Fifo Unit) := queue_policy Fifo.ops

def lru : MainPolicy (Lru Unit) := queue_policy Lru.ops

def clock : MainPolicy Clock.State where
  ops := Clock.ops none
  n_obj s := s.fifo.q.entries.length
  probe s id := (s.fifo.q.lookup id).isSome
  to_evict s := (Clock.Clock_to_evict s).map copy_cache_obj_to_request
  set_cache_size s cache_size := { s with fifo := { s.fifo with cache_size := cache_size } }

end CacheSim.S3fifod
