import CacheSim.S3fifod.Model

/-!
# Quick demotion, lazy promotion (`QDLP.c`)

A small FIFO queue in front of a main cache, which is a policy of its own. Objects that were read in the queue go to the
main cache, the others leave an entry in the ghost queue, and an object that comes back from there goes to the main cache.
-/

namespace CacheSim.Qdlp

open Lib
open S3fifod (MainPolicy main_get)

variable {σ : Type} (P : MainPolicy σ)

/-- `cache_t` with `QDLP_params_t`. The metadata of an object in the queues is its `freq`. -/
structure State (σ : Type) where
  cache_size : Int
  n_req : Int := 0
  small_cache : Fifo Int
  /-- `NULL` if its size would not be positive -/
  ghost_cache : Option (Fifo Int)
  main_cache : σ
  hit_on_ghost : Bool := false
  move_to_main_threshold : Int

/-- The sizes are the products of the ratios with the capacity, as `int64_t`. `none` when they are invalid, which ends the
program. -/
def QDLP_init (main_init : Int → σ) (cache_size fifo_cache_size ghost_cache_size move_to_main_threshold : Int) :
    Option (State σ) := do
  let main_cache_size := cache_size - fifo_cache_size
  guard ¬ (fifo_cache_size ≤ 0 ∨ main_cache_size ≤ 0)
  return {
    cache_size := cache_size
    small_cache := { cache_size := fifo_cache_size }
    ghost_cache := if ghost_cache_size > 0 then some { cache_size := ghost_cache_size } else none
    main_cache := main_init main_cache_size
    move_to_main_threshold := move_to_main_threshold }

variable (s : State σ)

def QDLP_get_occupied_byte : Int := s.small_cache.occupied_byte + P.ops.get_occupied_byte s.main_cache

def State.remembers (id : ObjId) : Bool := s.ghost_cache.any fun g => (g.q.lookup id).isSome

def QDLP_probe (id : ObjId) : Bool := (s.small_cache.q.lookup id).isSome || P.probe s.main_cache id

def remove_from_ghost (id : ObjId) : State σ × Bool :=
  match s.ghost_cache with
  | none => (s, false)
  | some g => ({ s with ghost_cache := some (g.FIFO_remove id).1 }, (g.FIFO_remove id).2)

variable (req : Request)

def QDLP_find : Option (State σ × Bool) :=
  let s := { s with hit_on_ghost := false }
  match s.small_cache.q.lookup req.obj_id with
  | some obj => some ({ s with small_cache := s.small_cache.set_md req.obj_id obj (obj.md + 1) }, true)
  | none => do
    let (s, removed) := remove_from_ghost s req.obj_id
    let s := if removed then { s with hit_on_ghost := true } else s
    let (main_cache, hit) ← P.ops.find s.main_cache req
    return ({ s with main_cache := main_cache }, hit)

/-- `none` when the main cache did not take the object: `obj` is null then, and the last assertion follows it. A new object
has not been read. -/
def QDLP_insert : Option (State σ) :=
  if s.hit_on_ghost then do
    let (main_cache, _) ← main_get P s.main_cache req
    guard (P.probe main_cache req.obj_id)
    return { s with hit_on_ghost := false, main_cache := main_cache }
  -- an object as large as the queue is not inserted at all
  else if req.obj_size ≥ s.small_cache.cache_size then some s
  else some { s with small_cache := s.small_cache.FIFO_insert req 0 }

def insert_to_ghost : Option (State σ) :=
  match s.ghost_cache with
  | none => some s
  | some g => (g.FIFO_get req).map fun r => { s with ghost_cache := some r.1 }

def QDLP_evict : Option (State σ) :=
  if s.small_cache.occupied_byte = 0 then do
    guard (P.ops.get_occupied_byte s.main_cache ≤ s.cache_size)
    let main_cache ← P.ops.evict s.main_cache req
    return { s with main_cache := main_cache }
  else do
    let obj ← s.small_cache.FIFO_to_evict
    let req_local := copy_cache_obj_to_request obj
    let s ← if obj.2.md ≥ s.move_to_main_threshold then
        (main_get P s.main_cache req_local).map fun r => { s with main_cache := r.1 }
      else insert_to_ghost s req_local
    let small_cache ← s.small_cache.FIFO_evict
    return { s with small_cache := small_cache }

/-! ## The user's call -/

def QDLP_can_insert (allows : Int → Request → Bool) (s : State σ) (req : Request) : Bool :=
  req.obj_size ≤ s.small_cache.cache_size && (allows s.n_req req && !(req.obj_size > s.cache_size))

def ops (allows : Int → Request → Bool) : CacheOps (State σ) where
  count_req s := { s with n_req := s.n_req + 1 }
  find s req := QDLP_find P s req
  can_insert s req := some (s, QDLP_can_insert allows s req)
  get_occupied_byte s := QDLP_get_occupied_byte P s
  obj_md_size _ := 0
  cache_size s := s.cache_size
  evict s req := QDLP_evict P s req
  insert s req := QDLP_insert P s req

def effort : Nat := 2 * s.small_cache.q.entries.length + P.n_obj s.main_cache

def QDLP_get (allows : Int → Request → Bool) (s : State σ) (req : Request) : Option (State σ × Bool) :=
  (ops P allows).cache_get_base (effort P) s req

end CacheSim.Qdlp
