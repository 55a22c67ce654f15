import CacheSim.Directory.Model
import Mathlib.Algebra.Order.Field.Rat

/-!
# CAR (`CAR.c`)

The directory of ARC with clocks in place of the two data lists: a hit only sets a reference bit,
and the eviction turns the clock hands. As in ARC, `rnd` is the rounding to `double`.
-/

namespace CacheSim.Car

open Lib Directory

/-- `cache_t` with `CAR_params_t` -/
structure State extends Dir where
  p : ℚ := 0
  curr_obj_in_L1_ghost : Bool := false
  curr_obj_in_L2_ghost : Bool := false
  last_req_in_ghost : Int := -1

def State.onDir (s : State) (f : Dir → Dir) : State := { s with toDir := f s.toDir }

/-- `p` is the `int` that the parameter string may set. -/
def CAR_init (cache_size : Nat) (consider_obj_metadata : Bool) (p : Int := 0)
    (admissioner : Option (Request → Bool) := none) : State where
  cache_size := cache_size
  admissioner := admissioner
  obj_md_size := if consider_obj_metadata then 8 * 2 + 8 * 3 else 0
  p := p

variable (rnd : ℚ → ℚ) (s : State)

/-- `MAX(1, a / b)` on `int64_t`, then converted to `double` -/
def delta (a b : Int) : ℚ := rnd (max 1 (a.tdiv b) : Int)

def find_in_L1_ghost (id : ObjId) (obj : Obj) : State :=
  { s.onDir (·.discard id obj) with
    curr_obj_in_L1_ghost := true
    last_req_in_ghost := s.n_req
    p := min (rnd (s.p + delta rnd (s.size .L2_ghost) (s.size .L1_ghost))) (rnd s.cache_size) }

/-- Object in B2. Unlike the branch for B1 this one does not set `last_req_in_ghost`. -/
def find_in_L2_ghost (id : ObjId) (obj : Obj) : State :=
  { s.onDir (·.discard id obj) with
    curr_obj_in_L2_ghost := true
    p := max (rnd (s.p - delta rnd (s.size .L1_ghost) (s.size .L2_ghost))) 0 }

variable (req : Request)

def CAR_find : Option (State × Bool) :=
  match s.dir.table req.obj_id with
  | none => some (s, false)
  | some obj =>
    if obj.ghost then
      if obj.lru_id = 1 then do
        guard (s.size .L1_ghost ≠ 0)
        return (find_in_L1_ghost rnd s req.obj_id obj, false)
      else do
        guard (s.size .L2_ghost ≠ 0)
        return (find_in_L2_ghost rnd s req.obj_id obj, false)
    else
      some (s.onDir (·.set_obj req.obj_id { obj with reference := true }), true)

def CAR_insert : Option State :=
  if s.curr_obj_in_L1_ghost || s.curr_obj_in_L2_ghost then
    some { s.onDir (·.enter req 2 false) with
      curr_obj_in_L1_ghost := false, curr_obj_in_L2_ghost := false }
  else
    some (s.onDir (·.enter req 1 false))

/-! ## Eviction -/

def use_L1 : Bool :=
  if s.dir.list .L1_data = [] then false
  else if s.dir.list .L2_data = [] then true
  else decide (rnd (s.size .L1_data) ≥ max 1 s.p)

/-- `_CAR_L1_demote_to_MRU_data` and `_CAR_L2_demote_to_MRU_data` -/
def CAR_demote_to_MRU_data (i : ObjId) (obj : Obj) : State := s.onDir (·.demote i obj)

def CAR_L1_move_to_tail_L2_data (i : ObjId) (obj : Obj) : State :=
  s.onDir (·.promote i { obj with ghost := false } false false)

def CAR_move_to_tail_L2_data (i : ObjId) (obj : Obj) : State :=
  s.onDir fun d => (d.move false .L2_data i).set_obj i { obj with ghost := false, reference := false }

def CAR_replace_round : Option (State × Bool) :=
  if use_L1 rnd s then do
    let i ← s.head .L1_data
    let obj ← s.dir.table i
    if !obj.reference then
      return (CAR_demote_to_MRU_data s i obj, true)
    else
      return (CAR_L1_move_to_tail_L2_data s i obj, false)
  else do
    let i ← s.head .L2_data
    let obj ← s.dir.table i
    if !obj.reference then
      return (CAR_demote_to_MRU_data s i obj, true)
    else
      return (CAR_move_to_tail_L2_data s i obj, false)

def CAR_replace : Option State := do
  let fuel := (s.dir.list .L1_data).length + (s.dir.list .L2_data).length + 1
  let (s, _) ← whileLoop (fun s => !s.2) (fun s => CAR_replace_round rnd s.1) fuel (s, false)
  return s

/-- The test of `_CAR_to_replace`, which does not look whether the list it names is empty. -/
def names_L1 : Bool := rnd (s.size .L1_data) ≥ max 1 s.p

/-- One round of `_CAR_to_replace`: the object, if it is found. A round that finds none changes nothing. -/
def CAR_to_replace_round : Option (Option ObjId) := do
  let i ← if names_L1 rnd s then s.head .L1_data else s.head .L2_data
  let obj ← s.dir.table i
  return if !obj.reference then some i else none

def CAR_to_replace (fuel : Nat) (s : State) : Option (Option ObjId) :=
  whileLoop (fun obj => obj.isNone) (fun _ => CAR_to_replace_round rnd s) fuel none

def CAR_to_evict (fuel : Nat) (to_evict_candidate : Option ObjId) (s : State) : Option (Option ObjId) :=
  if s.size .L1_data + s.size .L2_data ≥ s.cache_size then CAR_to_replace rnd fuel s else some to_evict_candidate

def CAR_discard_LRU_ghost (k : ListId) (s : State) : Option State := do
  let i ← s.tail k
  let obj ← s.dir.table i
  return s.onDir (·.discard i obj)

def CAR_evict : Option State :=
  let incoming_size := req.obj_size + s.obj_md_size
  if s.size .L1_data + s.size .L2_data = 0 then
    some s
  else do
    let s ← CAR_replace rnd s
    if !s.curr_obj_in_L1_ghost || !s.curr_obj_in_L2_ghost then
      if s.size .L1_data + s.size .L1_ghost ≥ s.cache_size then
        CAR_discard_LRU_ghost .L1_ghost s
      else if s.size .L1_data + s.size .L1_ghost > s.cache_size ∧
          s.size .L1_data + s.size .L2_data + s.size .L1_ghost + s.size .L2_ghost + incoming_size ≥
            s.cache_size * 2 then
        CAR_discard_LRU_ghost .L2_ghost s
      else
        return s
    else
      return s

def CAR_ops : CacheOps State where
  count_req s := s.onDir Dir.count_req
  find := CAR_find rnd
  can_insert s req := some (s, s.cache_can_insert_default req)
  get_occupied_byte s := s.occupied_byte
  obj_md_size s := s.obj_md_size
  cache_size s := s.cache_size
  evict := CAR_evict rnd
  insert := CAR_insert

def CAR_get : Option (State × Bool) :=
  (CAR_ops rnd).cache_get_base (fun s => s.occupied_byte.toNat) s req

def CAR_remove (id : ObjId) : State × Bool :=
  (s.onDir fun d => (d.remove id).1, (s.toDir.remove id).2)

end CacheSim.Car
