import CacheSim.Cache
import CacheSim.Lib.Double
import CacheSim.Lib.Search
import CacheSim.Lib.Table
import CacheSim.SplayTree.Model
import Mathlib.Data.UInt
import Mathlib.Data.Finset.Max
import Mathlib.Data.Prod.Lex

/-!
# The SHARDS profiler with a fixed rate (`mrcProfiler.cpp`)

Every arithmetic operation on `double` rounds its result.
-/

namespace CacheSim.Shards

open Lib

/-- The conversions of a `double` to an integer: the fraction is dropped. What they give for a number that is out of range
is not defined. -/
structure Casts where
  to_size_t : ℚ → Nat
  to_int64 : ℚ → Int
  size_t_eq : ∀ q, 0 ≤ q → q < 2 ^ 64 → to_size_t q = ⌊q⌋.toNat
  int64_eq : ∀ q, -2 ^ 63 ≤ q → q < 2 ^ 63 → to_int64 q = if 0 ≤ q then ⌊q⌋ else ⌈q⌉

structure Params where
  sample_rate : ℚ
  salt : UInt64

/-- The local variables and `n_req_` and `sum_obj_size_req`. -/
structure State where
  n_req_ : UInt64 := 0
  sum_obj_size_req : UInt64 := 0
  local_hit_cnt_vec : List ℚ
  local_hit_size_vec : List ℚ
  sampled_cnt : ℚ := 0
  sampled_size : ℚ := 0
  current_time : Int := 0
  last_access_time_map : Table ObjId Int := ∅
  rd_tree : SplayTree Int UInt64 := {}

structure Result where
  n_req_ : UInt64
  sum_obj_size_req : UInt64
  hit_cnt_vec : List Int
  hit_size_vec : List Int

def add_at (vec : List ℚ) (idx : Int) (x : ℚ) : Option (List ℚ) :=
  if 0 ≤ idx ∧ idx < vec.length then some (vec.modify idx.toNat fun v => to_double (v + x)) else none

/-- The hash function takes the id with the salt, and `mrc_size_vec` are the cache sizes. -/
structure Profiler where
  casts : Casts
  get_hash_value_int_64 : UInt64 → UInt64
  params : Params
  mrc_size_vec : List Nat

variable (p : Profiler)

def Profiler.get_hash_value_int_64_with_salt (obj_id : ObjId) : UInt64 :=
  p.get_hash_value_int_64 (UInt64.ofNat obj_id ^^^ p.params.salt)

/-- `kHashSpaceSize` is `2 ^ 64`. -/
def Profiler.sample_max : Nat :=
  if p.params.sample_rate ≥ 1 then 2 ^ 64 - 1 else p.casts.to_size_t (to_double (2 ^ 64 * p.params.sample_rate))

def Profiler.scale (x : ℚ) : ℚ := to_double (to_double x / p.params.sample_rate)

def Profiler.count_hit (s : State) (stack_distance : Nat) (obj_size : Int) : Option State := do
  let it := lower_bound p.mrc_size_vec stack_distance
  if it = p.mrc_size_vec.length then
    return s
  -- `int idx`
  let idx := (it : Int).bmod (2 ^ 32)
  let local_hit_cnt_vec ← add_at s.local_hit_cnt_vec idx (p.scale 1)
  let local_hit_size_vec ← add_at s.local_hit_size_vec idx (p.scale obj_size)
  return { s with local_hit_cnt_vec, local_hit_size_vec }

def Profiler.sampled (s : State) (req : Request) : Option State := do
  let s := { s with
    sampled_cnt := to_double (s.sampled_cnt + p.scale 1)
    sampled_size := to_double (s.sampled_size + p.scale req.obj_size) }
  let last_access_time_map := s.last_access_time_map.insert req.obj_id s.current_time
  match s.last_access_time_map.lookup req.obj_id with
  | some last_access_time =>
    let stack_distance := p.casts.to_size_t (p.scale (s.rd_tree.getDistance last_access_time).toNat)
    let rd_tree ← s.rd_tree.erase last_access_time
    let rd_tree := rd_tree.insert s.current_time (UInt64.ofInt req.obj_size)
    p.count_hit { s with last_access_time_map, rd_tree } stack_distance req.obj_size
  | none => return { s with last_access_time_map, rd_tree := s.rd_tree.insert s.current_time (UInt64.ofInt req.obj_size) }

def Profiler.step (s : State) (req : Request) : Option State :=
  let s := { s with
    n_req_ := s.n_req_ + 1
    sum_obj_size_req := s.sum_obj_size_req + UInt64.ofInt req.obj_size
    current_time := s.current_time + 1 }
  if (p.get_hash_value_int_64_with_salt req.obj_id).toNat ≤ p.sample_max then p.sampled s req else some s

def Profiler.accumulate : Int → List ℚ → List Int
  | _, [] => []
  | accu, x :: vec =>
    let accu := p.casts.to_int64 (to_double (to_double accu + x))
    accu :: Profiler.accumulate accu vec

def Profiler.init : State :=
  { local_hit_cnt_vec := List.replicate p.mrc_size_vec.length 0, local_hit_size_vec := List.replicate p.mrc_size_vec.length 0 }

def Profiler.fixed_sample_rate_run (first : Request) (rest : List Request) : Option Result := do
  let s ← runs p.step p.init (first :: rest)
  let local_hit_cnt_vec ← add_at s.local_hit_cnt_vec 0 (to_double (to_double s.n_req_.toNat - s.sampled_cnt))
  let local_hit_size_vec ← add_at s.local_hit_size_vec 0 (to_double (to_double s.sum_obj_size_req.toNat - s.sampled_size))
  return {
    n_req_ := s.n_req_
    sum_obj_size_req := s.sum_obj_size_req
    hit_cnt_vec := p.accumulate 0 local_hit_cnt_vec
    hit_size_vec := p.accumulate 0 local_hit_size_vec }

end CacheSim.Shards

/-!
## The SHARDS profiler with a fixed number of samples (`mrcProfiler.cpp`, `minvaluemap.hpp`)

The sample rate follows from the greatest hash value of a full sample. It can be 0, and a `double` then is infinite.
-/

namespace CacheSim.Shards

open Lib

structure MinValueMap (K V : Type) [DecidableEq K] where
  n : Nat
  set : Finset (V ×ₗ K) := ∅
  map : Table K V := ∅

namespace MinValueMap

variable {K V : Type} [LinearOrder K] [LinearOrder V]

def full (m : MinValueMap K V) : Bool := m.set.card = m.n

def rbegin (m : MinValueMap K V) : Option (V ×ₗ K) := m.set.max

def get_max_value (m : MinValueMap K V) : Option V := m.rbegin.map fun e => (ofLex e).1

def insert (m : MinValueMap K V) (key : K) (value : V) : Option (MinValueMap K V × Option K) :=
  match m.map.lookup key with
  | some old => some ({ m with set := Insert.insert (toLex (value, key)) (m.set.erase (toLex (old, key))), map := m.map.insert key value }, none)
  | none => do
    let m := { m with map := m.map.insert key value }
    if m.set.card < m.n then
      return ({ m with set := Insert.insert (toLex (value, key)) m.set }, none)
    let last ← m.rbegin
    if value < (ofLex last).1 then
      return ({ m with
        set := Insert.insert (toLex (value, key)) (m.set.erase last)
        map := m.map.erase (ofLex last).2 }, some (ofLex last).2)
    return (m, none)

end MinValueMap

/-! ## Numbers that may be infinite -/

/-- A `double`, or `none` for an infinite one or one that is not a number. -/
abbrev Double := Option ℚ

def Double.add (x y : Double) : Double := x.bind fun x => y.map fun y => to_double (x + y)

def Double.div (x y : Double) : Double := x.bind fun x => y.bind fun y => if y = 0 then none else some (to_double (x / y))

namespace FixedSize

/-- What `parse_params` lets through; `atoi` gives an `int`. -/
structure Params where
  sample_size : Int
  salt : UInt64
  pos : 0 < sample_size
  int : sample_size < 2 ^ 31

structure State where
  n_req_ : UInt64 := 0
  sum_obj_size_req : UInt64 := 0
  local_hit_cnt_vec : List Double
  local_hit_size_vec : List Double
  sampled_cnt : Double := some 0
  sampled_size : Double := some 0
  current_time : Int := 0
  min_value_map : MinValueMap Int Nat
  last_access_time_map : Table ObjId Int := ∅
  rd_tree : SplayTree Int UInt64 := {}

/-- `nonfinite` is what a `double` becomes as an `int64_t` if it is no number; this is not defined. -/
structure Profiler where
  casts : Casts
  nonfinite : Int
  get_hash_value_int_64 : UInt64 → UInt64
  params : Params
  mrc_size_vec : List Nat

def to_key (id : ObjId) : Int := (id : Int).bmod (2 ^ 64)

def to_obj_id (key : Int) : ObjId := (key % 2 ^ 64).toNat

variable (p : Profiler)

def Profiler.get_hash_value_int_64_with_salt (obj_id : ObjId) : UInt64 :=
  p.get_hash_value_int_64 (UInt64.ofNat obj_id ^^^ p.params.salt)

def Profiler.to_int64 (x : Double) : Int := (x.map p.casts.to_int64).getD p.nonfinite

def add_at (vec : List Double) (idx : Int) (x : Double) : Option (List Double) :=
  if 0 ≤ idx ∧ idx < vec.length then some (vec.modify idx.toNat fun v => v.add x) else none

def scale (sample_rate : Double) (x : ℚ) : Double := Double.div (some (to_double x)) sample_rate

variable (s : State)

/-- An id that comes in may push another one out of the sample. -/
def sample_id (obj_id : ObjId) (hash_value : Nat) : Option State :=
  if (s.last_access_time_map.lookup obj_id).isSome then some s
  else do
    let (min_value_map, poped) ← s.min_value_map.insert (to_key obj_id) hash_value
    let s := { s with min_value_map }
    match poped with
    | none => return s
    | some poped_id =>
      -- `operator[]` gives 0 for an id that is not there
      let poped_id_access_time := (s.last_access_time_map.lookup (to_obj_id poped_id)).getD 0
      let rd_tree ← s.rd_tree.erase poped_id_access_time
      return { s with rd_tree, last_access_time_map := s.last_access_time_map.erase (to_obj_id poped_id) }

def sample_rate (m : MinValueMap Int Nat) : Option Double :=
  if !m.full then some (some 1)
  else m.get_max_value.map fun max => Double.div (some (to_double max)) (some (2 ^ 64))

def Profiler.count_hit (sample_rate : Double) (stack_distance : Int) (obj_size : Int) : Option State := do
  -- the sizes are `size_t`, so a negative distance is a great one
  let it := lower_bound p.mrc_size_vec (stack_distance % 2 ^ 64).toNat
  if it = p.mrc_size_vec.length then
    return s
  -- `int idx`
  let idx := (it : Int).bmod (2 ^ 32)
  let local_hit_cnt_vec ← add_at s.local_hit_cnt_vec idx (scale sample_rate 1)
  let local_hit_size_vec ← add_at s.local_hit_size_vec idx (scale sample_rate obj_size)
  return { s with local_hit_cnt_vec, local_hit_size_vec }

def Profiler.touch (req : Request) (sample_rate : Double) : Option State := do
  let s := { s with
    sampled_cnt := s.sampled_cnt.add (scale sample_rate 1)
    sampled_size := s.sampled_size.add (scale sample_rate req.obj_size) }
  let last_access_time_map := s.last_access_time_map.insert req.obj_id s.current_time
  match s.last_access_time_map.lookup req.obj_id with
  | some last_acc_time =>
    let stack_distance := p.to_int64 (scale sample_rate (s.rd_tree.getDistance last_acc_time).toNat)
    let rd_tree ← s.rd_tree.erase last_acc_time
    let rd_tree := rd_tree.insert s.current_time (UInt64.ofInt req.obj_size)
    p.count_hit { s with last_access_time_map, rd_tree } sample_rate stack_distance req.obj_size
  | none => return { s with last_access_time_map, rd_tree := s.rd_tree.insert s.current_time (UInt64.ofInt req.obj_size) }

def is_sampled (obj_id : ObjId) (hash_value : Nat) : Option Bool :=
  if !s.min_value_map.full then some true
  else s.min_value_map.get_max_value.map fun max => hash_value < max || (s.last_access_time_map.lookup obj_id).isSome

def Profiler.step (req : Request) : Option State := do
  let s := { s with
    n_req_ := s.n_req_ + 1
    sum_obj_size_req := s.sum_obj_size_req + UInt64.ofInt req.obj_size
    current_time := s.current_time + 1 }
  let hash_value := (p.get_hash_value_int_64_with_salt req.obj_id).toNat
  if ← is_sampled s req.obj_id hash_value then
    let s ← sample_id s req.obj_id hash_value
    p.touch s req (← sample_rate s.min_value_map)
  else
    return s

def Profiler.init : State :=
  { local_hit_cnt_vec := List.replicate p.mrc_size_vec.length (some 0)
    local_hit_size_vec := List.replicate p.mrc_size_vec.length (some 0)
    min_value_map := { n := p.params.sample_size.toNat } }

end FixedSize

end CacheSim.Shards
