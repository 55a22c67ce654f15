import CacheSim.S3fifod.Model
import CacheSim.Slru.Model

/-!
# W-TinyLFU (`WTinyLFU.c`)

Objects enter a window. Its tail goes on to the main cache, and when that is full it has to be more frequent there than the
main cache's own victim. The counting filter that estimates the frequencies is a parameter.
-/

namespace CacheSim.WTinyLFU

open Lib
open S3fifod (MainPolicy scale)

variable {σ β : Type}

/-- The functions of `minimalIncrementCBF` that are called. -/
structure Filter (β : Type) where
  add : β → ObjId → β
  decay : β → β
  estimate : β → ObjId → Int

/-- `cache_t` with `WTinyLFU_params_t`, for objects without metadata -/
structure State (σ β : Type) where
  cache_size : Int
  n_req : Int := 0
  /-- the window -/
  LRU : Lru Unit
  main_cache : σ
  CBF : β
  max_request_num : Int
  request_counter : Int := 0

variable (P : MainPolicy σ) (F : Filter β)

def WTinyLFU_init (main_init : Int → Option σ) (CBF : β) (cache_size window_size : Int) : Option (State σ β) := do
  let main_cache_size := cache_size - window_size
  let main_cache ← main_init main_cache_size
  return {
    cache_size := cache_size
    LRU := { cache_size := window_size }
    main_cache := main_cache
    CBF := CBF
    max_request_num := 32 * main_cache_size }

variable (s : State σ β)

def WTinyLFU_get_occupied_byte : Int := s.LRU.occupied_byte + P.ops.get_occupied_byte s.main_cache

def WTinyLFU_probe (id : ObjId) : Bool := (s.LRU.q.lookup id).isSome || P.probe s.main_cache id

def count_hit (id : ObjId) : State σ β :=
  let s := { s with CBF := F.add s.CBF id, request_counter := s.request_counter + 1 }
  if s.request_counter ≥ s.max_request_num then { s with request_counter := 0, CBF := F.decay s.CBF } else s

variable (req : Request)

/-- `WTinyLFU_find` with `update_cache` true, and whether it returned an object. Both caches are asked. -/
def WTinyLFU_find : Option (State σ β × Bool) := do
  let (LRU, obj_window) := s.LRU.LRU_find req true
  let (main_cache, obj_main) ← P.ops.find s.main_cache req
  let s := { s with LRU := LRU, main_cache := main_cache }
  return (if obj_main then count_hit F s req.obj_id else s, obj_window.isSome || obj_main)

def WTinyLFU_insert : State σ β :=
  { s with LRU := s.LRU.LRU_insert req (), CBF := F.add s.CBF req.obj_id }

def settle_victim (window_victim : Sigma fun _ : ObjId => FifoObj Unit) : Option (State σ β × Bool) :=
  let req_local := copy_cache_obj_to_request window_victim
  if P.ops.get_occupied_byte s.main_cache + req_local.obj_size + P.ops.obj_md_size s.main_cache ≤ P.ops.cache_size s.main_cache then do
    let main_cache ← P.ops.insert s.main_cache req_local
    return ({ s with main_cache := main_cache, LRU := (s.LRU.LRU_remove window_victim.1).1 }, false)
  else do
    let main_cache_victim ← P.to_evict s.main_cache
    if F.estimate s.CBF window_victim.1 > F.estimate s.CBF main_cache_victim.obj_id then do
      let main_cache ← P.ops.evict s.main_cache req
      let main_cache ← P.ops.insert main_cache req_local
      return ({ s with main_cache := main_cache, LRU := (s.LRU.LRU_remove window_victim.1).1 }, true)
    else do
      let LRU ← s.LRU.LRU_evict
      return ({ s with LRU := LRU }, true)

def evict_step (w : State σ β × Bool) : Option (State σ β × Bool) :=
  if w.1.LRU.occupied_byte > 0 then do
    let window_victim ← w.1.LRU.LRU_to_evict
    let (s, evicted) ← settle_victim P F w.1 req window_victim
    return ({ s with CBF := F.add s.CBF window_victim.1 }, evicted)
  else do
    let main_cache ← P.ops.evict w.1.main_cache req
    return ({ w.1 with main_cache := main_cache }, true)

def WTinyLFU_evict : Option (State σ β) :=
  (whileLoop (fun w => !w.2) (evict_step P F req) (s.LRU.q.entries.length + 1) (s, false)).map (·.1)

def WTinyLFU_can_insert (allows : Int → Request → Bool) (s : State σ β) (req : Request) : Option (State σ β × Bool) :=
  if (allows s.n_req req && !(req.obj_size > s.cache_size)) && req.obj_size + s.LRU.obj_md_size ≤ s.LRU.cache_size then
    (P.ops.can_insert s.main_cache req).map fun r => ({ s with main_cache := r.1 }, r.2)
  else some (s, false)

def ops (allows : Int → Request → Bool) : CacheOps (State σ β) where
  count_req s := { s with n_req := s.n_req + 1 }
  find s req := WTinyLFU_find P F s req
  can_insert s req := WTinyLFU_can_insert P allows s req
  get_occupied_byte s := WTinyLFU_get_occupied_byte P s
  obj_md_size _ := 0
  cache_size s := s.cache_size
  evict s req := WTinyLFU_evict P F s req
  insert s req := some (WTinyLFU_insert F s req)

def WTinyLFU_get (allows : Int → Request → Bool) (s : State σ β) (req : Request) : Option (State σ β × Bool) :=
  (ops P F allows).cache_get_base (fun s => (WTinyLFU_get_occupied_byte P s).toNat) s req

inductive Call where
  | get (req : Request)
  | evict (req : Request)

def call (allows : Int → Request → Bool) (s : State σ β) : Call → Option (State σ β)
  | .get req => (WTinyLFU_get P F allows s req).map (·.1)
  | .evict req => WTinyLFU_evict P F s req

def Call.Sized : Call → Prop
  | .get req => 1 ≤ req.obj_size
  | .evict _ => True

/-! ## The main caches -/

def fifth : ℚ := 3602879701896397 / 2 ^ 54

def seg_size (cache_size : Int) (i : Nat) : Int := scale cache_size (if i = 0 then fifth else 4 * fifth)

/-- A segment without a byte ends the program. -/
def slru_init (cache_size : Int) : Option Slru.State := do
  guard (0 < seg_size cache_size 0 ∧ 0 < seg_size cache_size 1)
  return Slru.SLRU_init cache_size false 2 (some (seg_size cache_size))

def slru : MainPolicy Slru.State where
  ops := Slru.ops none
  n_obj s := s.hashtable.entries.length
  probe s id := (s.hashtable.lookup id).isSome
  to_evict s := do
    let id ← Slru.SLRU_to_evict none s
    let obj ← s.hashtable.lookup id
    return { obj_id := id, obj_size := obj.obj_size }
  set_cache_size s cache_size := { s with cache_size := cache_size }

def lru_init (cache_size : Int) : Option (Lru Unit) := some { cache_size := cache_size }

end CacheSim.WTinyLFU
