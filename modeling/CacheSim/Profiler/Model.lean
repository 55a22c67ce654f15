import CacheSim.Lru

/-!
# The LRU profiler (`dist.c`, `profilerLRU.c`)

Each object has the time of its last request in a hash table of pointers, and the times are in an
ordered set. A time of 0 is a null pointer.
-/

namespace CacheSim.Profiler

open Lib

structure State where
  /-- the keys of the splay tree -/
  splay_tree : Finset Nat := ∅
  /-- the times, which the code keeps as pointers -/
  hash_table : Table ObjId Nat := ∅

/-- `g_hash_table_lookup`: a value of 0 cannot be told from a missing key. -/
def g_hash_table_lookup (t : Table ObjId Nat) (id : ObjId) : Option Nat := (t.lookup id).filter (· ≠ 0)

def right_of (tree : Finset Nat) (ts : Nat) : Nat := (tree.filter fun k => ts < k).card

def get_stack_dist_add_req (s : State) (id : ObjId) (curr_ts : Nat) : State × Int :=
  match g_hash_table_lookup s.hash_table id with
  | none => ({ splay_tree := insert curr_ts s.splay_tree, hash_table := s.hash_table.insert id curr_ts }, -1)
  | some old_ts =>
    ({ splay_tree := insert curr_ts (s.splay_tree.erase old_ts), hash_table := s.hash_table.insert id curr_ts },
      right_of s.splay_tree old_ts)

def dists : State → Nat → List ObjId → List Int
  | _, _, [] => []
  | s, curr_ts, id :: trace =>
    let (s, stack_dist) := get_stack_dist_add_req s id curr_ts
    stack_dist :: dists s (curr_ts + 1) trace

/-- `get_stack_dist` with `STACK_DIST`. The array is of `int32_t`; a distance above `UINT32_MAX` ends
the program. -/
def get_stack_dist (trace : List ObjId) : Option (List Int) :=
  if (dists {} 0 trace).any fun stack_dist => stack_dist > 2 ^ 32 - 1 then none
  else some ((dists {} 0 trace).map fun stack_dist => stack_dist.bmod (2 ^ 32))

/-- One request of `_get_lru_hit_cnt`: 1 is added because the distance of consecutive requests is 0. -/
def count_dist (size : Nat) (a : Nat → Int) (stack_dist : Int) : Nat → Int :=
  if stack_dist = -1 then a
  else if stack_dist + 1 ≤ size then Function.update a (stack_dist + 1).toNat (a (stack_dist + 1).toNat + 1)
  else a

def _get_lru_hit_cnt (size : Nat) (trace : List ObjId) : Nat → Int :=
  let hit_count_array := (dists {} 0 trace).foldl (count_dist size) fun _ => 0
  (List.range size).foldl (fun a i => Function.update a (i + 1) (a (i + 1) + a i)) hit_count_array

/-! ## The other distances -/

def last_access_ts (s : State) (id : ObjId) : Int :=
  match g_hash_table_lookup s.hash_table id with
  | none => -1
  | some old_ts => old_ts

/-- The loop with `FUTURE_STACK_DIST`: a distance goes to the request before. -/
def future_dists : State → Nat → List ObjId → List Int → List Int
  | _, _, [], stack_dist_array => stack_dist_array
  | s, curr_ts, id :: trace, stack_dist_array =>
    let last_access_ts := last_access_ts s id
    let (s, stack_dist) := get_stack_dist_add_req s id curr_ts
    future_dists s (curr_ts + 1) trace
      (if last_access_ts ≠ -1 then stack_dist_array.set last_access_ts.toNat (stack_dist.bmod (2 ^ 32)) else stack_dist_array)

def get_future_stack_dist (trace : List ObjId) : Option (List Int) :=
  if (dists {} 0 trace).any fun stack_dist => stack_dist > 2 ^ 32 - 1 then none
  else some (future_dists {} 0 trace (List.replicate trace.length (-1)))

/-- The types that `get_access_dist` supports. -/
inductive DistType
  | DIST_SINCE_LAST_ACCESS
  | DIST_SINCE_FIRST_ACCESS
deriving DecidableEq, Repr

/-- The table is written only if the last access is asked for. -/
def get_access_dist_add_req (hash_table : Table ObjId Nat) (id : ObjId) (curr_ts : Nat) (dist_type : DistType) :
    Table ObjId Nat × Int :=
  let ret : Int :=
    match g_hash_table_lookup hash_table id with
    | none => -1
    | some old_ts => curr_ts - old_ts
  match dist_type with
  | .DIST_SINCE_LAST_ACCESS => (hash_table.insert id curr_ts, ret)
  | .DIST_SINCE_FIRST_ACCESS => (hash_table, ret)

def access_dists (dist_type : DistType) : Table ObjId Nat → Nat → List ObjId → List Int
  | _, _, [] => []
  | hash_table, curr_ts, id :: trace =>
    let (hash_table, dist) := get_access_dist_add_req hash_table id curr_ts dist_type
    dist :: access_dists dist_type hash_table (curr_ts + 1) trace

def get_access_dist (dist_type : DistType) (trace : List ObjId) : Option (List Int) :=
  if (access_dists dist_type ∅ 0 trace).any fun dist => dist > 2 ^ 32 - 1 then none
  else some ((access_dists dist_type ∅ 0 trace).map fun dist => dist.bmod (2 ^ 32))

end CacheSim.Profiler
