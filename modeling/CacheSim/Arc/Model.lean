import CacheSim.Directory.Model
import Mathlib.Algebra.Order.Field.Rat

/-!
# ARC (`ARC.c`)

`p` is a `double`. Every `double` is a rational and every operation on doubles is the exact one
followed by a rounding, so the model takes the rounding `rnd` as a parameter.
-/

namespace CacheSim.Arc

open Lib Directory

/-- `cache_t` with `ARC_params_t` -/
structure State extends Dir where
  p : ℚ := 0
  curr_obj_in_L1_ghost : Bool := false
  curr_obj_in_L2_ghost : Bool := false
  vtime_last_req_in_ghost : Int := -1

def State.onDir (s : State) (f : Dir → Dir) : State := { s with toDir := f s.toDir }

def ARC_init (cache_size : Nat) (consider_obj_metadata : Bool) (admissioner : Option (Request → Bool) := none) : State where
  cache_size := cache_size
  admissioner := admissioner
  obj_md_size := if consider_obj_metadata then 8 * 2 + 8 * 3 else 0

variable (rnd : ℚ → ℚ) (s : State)

/-- `MAX((double)a / b, 1)` -/
def delta (a b : Int) : ℚ := max (rnd (rnd a / rnd b)) 1

def find_in_L1_ghost (id : ObjId) (obj : Obj) : State :=
  { s.onDir (·.discard id obj) with
    curr_obj_in_L1_ghost := true
    curr_obj_in_L2_ghost := false
    vtime_last_req_in_ghost := s.n_req
    p := min (rnd (s.p + delta rnd (s.size .L2_ghost) (s.size .L1_ghost))) (rnd s.cache_size) }

def find_in_L2_ghost (id : ObjId) (obj : Obj) : State :=
  { s.onDir (·.discard id obj) with
    curr_obj_in_L1_ghost := false
    curr_obj_in_L2_ghost := true
    vtime_last_req_in_ghost := s.n_req
    p := max (rnd (s.p - delta rnd (s.size .L1_ghost) (s.size .L2_ghost))) 0 }

def find_in_data (id : ObjId) (obj : Obj) : State :=
  let s := { s with curr_obj_in_L1_ghost := false, curr_obj_in_L2_ghost := false }
  if obj.lru_id = 1 then
    s.onDir (·.promote id obj true obj.reference)
  else
    s.onDir (·.move true .L2_data id)

variable (req : Request)

def ARC_find : Option (State × Bool) :=
  match s.dir.table req.obj_id with
  | none => some (s, false)
  | some obj =>
    if obj.ghost then
      if obj.lru_id = 1 then do
        guard ((1 : Int) ≤ s.size .L1_ghost)
        return (find_in_L1_ghost rnd s req.obj_id obj, false)
      else do
        guard ((1 : Int) ≤ s.size .L2_ghost)
        return (find_in_L2_ghost rnd s req.obj_id obj, false)
    else
      some (find_in_data s req.obj_id obj, true)

/-- Whether the request that is being served hit a ghost list. -/
def State.ghostHit : Bool :=
  s.vtime_last_req_in_ghost == s.n_req && (s.curr_obj_in_L1_ghost || s.curr_obj_in_L2_ghost)

def ARC_insert : Option State :=
  if s.ghostHit then
    some { s.onDir (·.enter req 2 true) with
      curr_obj_in_L1_ghost := false, curr_obj_in_L2_ghost := false, vtime_last_req_in_ghost := -1 }
  else
    some (s.onDir (·.enter req 1 true))

/-! ## Eviction

Each helper takes the tail of its list, and fails where the code asserts `obj != NULL`. -/

def State.onTail (k : ListId) (f : ObjId → Obj → Dir → Dir) : Option State := do
  let i ← s.tail k
  let obj ← s.dir.table i
  return s.onDir (f i obj)

/-- The two ghost helpers also assert that the object is a ghost. -/
def State.onGhostTail (k : ListId) : Option State := do
  let i ← s.tail k
  let obj ← s.dir.table i
  guard obj.ghost
  return s.onDir (·.discard i obj)

def ARC_evict_L1_data : Option State := s.onTail .L1_data fun i obj d => d.demote i obj

def ARC_evict_L1_data_no_ghost : Option State := s.onTail .L1_data fun i obj d => d.drop i obj

def ARC_evict_L2_data : Option State := s.onTail .L2_data fun i obj d => d.demote i obj

def ARC_evict_L1_ghost : Option State := s.onGhostTail .L1_ghost

def ARC_evict_L2_ghost : Option State := s.onGhostTail .L2_ghost

def replacesL1 : Bool :=
  let cond1 := s.size .L1_data > 0
  let cond2 := rnd (s.size .L1_data) > s.p
  let cond3 := rnd (s.size .L1_data) = s.p ∧ s.curr_obj_in_L2_ghost
  let cond4 := s.size .L2_data = 0
  (cond1 ∧ (cond2 ∨ cond3)) ∨ cond4

/-- The REPLACE function of the paper. -/
def ARC_replace : Option State :=
  if replacesL1 rnd s then ARC_evict_L1_data s else ARC_evict_L2_data s

def ARC_to_replace : Option ObjId :=
  if replacesL1 rnd s then s.tail .L1_data else s.tail .L2_data

def ARC_evict_miss_on_all_queues : Option State :=
  let incoming_size := req.obj_size + s.obj_md_size
  if s.size .L1_data + s.size .L1_ghost + incoming_size > s.cache_size then
    if s.size .L1_ghost > 0 then
      (ARC_evict_L1_ghost s).bind (ARC_replace rnd)
    else
      ARC_evict_L1_data_no_ghost s
  else do
    guard (s.size .L1_data + s.size .L1_ghost < s.cache_size)
    if s.size .L1_data + s.size .L1_ghost + s.size .L2_data + s.size .L2_ghost ≥ s.cache_size * 2 ∧
        s.size .L2_ghost > 0 then
      (ARC_evict_L2_ghost s).bind (ARC_replace rnd)
    else
      ARC_replace rnd s

def ARC_to_evict_miss_on_all_queues : Option ObjId :=
  let incoming_size := req.obj_size + s.obj_md_size
  if s.size .L1_data + s.size .L1_ghost + incoming_size > s.cache_size then
    if s.size .L1_ghost > 0 then ARC_to_replace rnd s else s.tail .L1_data
  else
    ARC_to_replace rnd s

/-- The object returned. That the cache notes it as its candidate is left out: nothing of ARC reads the note. -/
def ARC_to_evict : Option ObjId :=
  if s.ghostHit then ARC_to_replace rnd s else ARC_to_evict_miss_on_all_queues rnd s req

def ARC_evict : Option State :=
  if s.ghostHit then ARC_replace rnd s else ARC_evict_miss_on_all_queues rnd s req

/-! ## The user's calls -/

def ARC_ops : CacheOps State where
  count_req s := s.onDir Dir.count_req
  find := ARC_find rnd
  can_insert s req := some (s, s.cache_can_insert_default req)
  get_occupied_byte s := s.occupied_byte
  obj_md_size s := s.obj_md_size
  cache_size s := s.cache_size
  evict := ARC_evict rnd
  insert := ARC_insert

def ARC_get : Option (State × Bool) :=
  (ARC_ops rnd).cache_get_base (fun s => s.occupied_byte.toNat) s req

def ARC_remove (id : ObjId) : State × Bool :=
  (s.onDir fun d => (d.remove id).1, (s.toDir.remove id).2)

end CacheSim.Arc
