import CacheSim.Cache
import CacheSim.Lib.Table
import CacheSim.Lib.Chain

/-!
# The chained hash table (`dataStructure/hashtable/chainedHashTableV2.c`)

Each bucket points to the first object of its chain, and the objects link themselves. The table owns its
objects and frees them, or with `external_obj` its user does. `none` is a step with no defined result:
a bad pointer, a write past an array, or a loop that does not end.
-/

namespace CacheSim.Hash

open Lib Function

abbrev Ptr := Nat

/-- `cache_obj_t` -/
structure CacheObj where
  obj_id : ObjId
  obj_size : Int := 1
  hash_next : Option Ptr := none
deriving DecidableEq, Repr

/-- `hashtable_t`, with the heap of objects. -/
structure HashTable where
  heap : Table Ptr CacheObj := ∅
  ptr_table : Nat → Option Ptr := fun _ => none
  n_obj : Nat := 0
  hashpower : Nat
  external_obj : Bool := false
  /-- the static variable of `chained_hashtable_delete_v2` -/
  max_chain_len : Nat := 64

def hashsize (n : Nat) : Nat := 2 ^ n

def hashmask (n : Nat) : Nat := hashsize n - 1

def hash_next (heap : Table Ptr CacheObj) (p : Ptr) : Option (Option Ptr) := (heap.lookup p).map fun o => o.hash_next

def set_hash_next (heap : Table Ptr CacheObj) (p : Ptr) (o : CacheObj) (next : Option Ptr) : Table Ptr CacheObj :=
  heap.replace p { o with hash_next := next }

section
-- `get_hash_value_int_64`
variable (hash : ObjId → Nat)

def bucket (hashpower : Nat) (obj_id : ObjId) : Nat := hash obj_id &&& hashmask hashpower

variable (t : HashTable)

/-- A new object at an empty bucket keeps its link. -/
def add_to_table (cache_obj : Ptr) : Option HashTable := do
  let o ← t.heap.lookup cache_obj
  let hv := bucket hash t.hashpower o.obj_id
  match t.ptr_table hv with
  | none => return { t with ptr_table := update t.ptr_table hv (some cache_obj) }
  | some head_ptr => return { t with
      heap := set_hash_next t.heap cache_obj o (some head_ptr)
      ptr_table := update t.ptr_table hv (some cache_obj) }

def create_chained_hashtable_v2 (heap : Table Ptr CacheObj) (hashpower : Nat) : HashTable :=
  { heap := heap, hashpower := hashpower }

def copy_chain : Nat → HashTable → Option Ptr → Option HashTable
  | _, t, none => some t
  | 0, _, some _ => none
  | fuel + 1, t, some cur_obj => do
    let o ← t.heap.lookup cur_obj
    let t ← add_to_table hash { t with heap := set_hash_next t.heap cur_obj o none } cur_obj
    copy_chain fuel t o.hash_next

def _copy_entries (old_table : Nat → Option Ptr) (old_size : Nat) : Option HashTable :=
  (List.range old_size).foldlM (fun t i => copy_chain hash t.heap.entries.length t (old_table i)) t

/-- The power is a `uint16_t`, so the code must not come here with 0. -/
def _chained_hashtable_shrink_v2 : Option HashTable :=
  if t.hashpower = 0 then none
  else _copy_entries hash { t with ptr_table := fun _ => none, hashpower := t.hashpower - 1 } t.ptr_table (hashsize t.hashpower)

def _chained_hashtable_expand_v2 : Option HashTable :=
  _copy_entries hash { t with ptr_table := fun _ => none, hashpower := t.hashpower + 1 } t.ptr_table (hashsize t.hashpower)

def overloaded : Bool := t.n_obj > hashsize t.hashpower * 2

def expand_if_overloaded : Option HashTable := if overloaded t then _chained_hashtable_expand_v2 hash t else some t

/-! ## Operations -/

def chained_hashtable_find_obj_id_v2 (obj_id : ObjId) : Option (Option Ptr) :=
  (seek (hash_next t.heap) (fun p => (t.heap.lookup p).any fun o => o.obj_id = obj_id) t.heap.entries.length
    (t.ptr_table (bucket hash t.hashpower obj_id))).map (·.1)

def chained_hashtable_insert_v2 (req : Request) (new_cache_obj : Ptr) : Option HashTable := do
  let t ← expand_if_overloaded hash t
  let o : CacheObj := { obj_id := req.obj_id, obj_size := req.obj_size }
  let t ← add_to_table hash { t with heap := t.heap.insert new_cache_obj o } new_cache_obj
  return { t with n_obj := t.n_obj + 1 }

def chained_hashtable_insert_obj_v2 (cache_obj : Ptr) : Option HashTable := do
  let t ← expand_if_overloaded hash t
  let t ← add_to_table hash t cache_obj
  return { t with n_obj := t.n_obj + 1 }

/-- `if (!hashtable->external_obj) free_cache_obj(cache_obj)` -/
def free_owned (cache_obj : Ptr) : HashTable :=
  if t.external_obj then t else { t with heap := t.heap.erase cache_obj }

def bucket_chain (hv : Nat) : List Ptr := walk (hash_next t.heap) t.heap.entries.length (t.ptr_table hv)

/-- `obj_id_arr` has 64 places; an id that comes twice ends the program. -/
def count_n_obj_in_bucket (hv : Nat) : Option Nat := do
  let ids := (bucket_chain t hv).filterMap fun p => (t.heap.lookup p).map fun o => o.obj_id
  guard (ids.length ≤ 64 ∧ ids.Nodup)
  return ids.length

def print_hashbucket_item_distribution : Option Unit :=
  (List.range (hashsize t.hashpower)).forM fun hv => (count_n_obj_in_bucket t hv).map fun _ => ()

def links_to (heap : Table Ptr CacheObj) (cache_obj p : Ptr) : Bool := hash_next heap p = some (some cache_obj)

def chained_hashtable_delete_v2 (cache_obj : Ptr) : Option HashTable := do
  let o ← t.heap.lookup cache_obj
  let t := { t with n_obj := t.n_obj - 1 }
  let hv := bucket hash t.hashpower o.obj_id
  if t.ptr_table hv = some cache_obj then
    return free_owned { t with ptr_table := update t.ptr_table hv o.hash_next } cache_obj
  let (cur_obj, n) ← seek (hash_next t.heap) (links_to t.heap cache_obj) t.heap.entries.length (t.ptr_table hv)
  let chain_len := n + 1
  if chain_len > t.max_chain_len then
    print_hashbucket_item_distribution t
  let t := { t with max_chain_len := max t.max_chain_len chain_len }
  let cur_obj ← cur_obj
  let cur ← t.heap.lookup cur_obj
  return free_owned { t with heap := set_hash_next t.heap cur_obj cur o.hash_next } cache_obj

def chained_hashtable_try_delete_v2 (cache_obj : Ptr) : Option (HashTable × Bool) := do
  let o ← t.heap.lookup cache_obj
  let hv := bucket hash t.hashpower o.obj_id
  if t.ptr_table hv = some cache_obj then
    return (free_owned { t with ptr_table := update t.ptr_table hv o.hash_next, n_obj := t.n_obj - 1 } cache_obj, true)
  let (cur_obj, _) ← seek (hash_next t.heap) (links_to t.heap cache_obj) t.heap.entries.length (t.ptr_table hv)
  match cur_obj with
  | none => return (t, false)
  | some cur_obj =>
    let cur ← t.heap.lookup cur_obj
    return (free_owned { t with heap := set_hash_next t.heap cur_obj cur o.hash_next, n_obj := t.n_obj - 1 } cache_obj, true)

def seek_obj_id (heap : Table Ptr CacheObj) (obj_id : ObjId) : Nat → Ptr → Option (Ptr × Option Ptr)
  | 0, _ => none
  | fuel + 1, prev_obj => do
    let prev ← heap.lookup prev_obj
    match prev.hash_next with
    | none => return (prev_obj, none)
    | some cur_obj =>
      let cur ← heap.lookup cur_obj
      if cur.obj_id = obj_id then return (prev_obj, some cur_obj)
      seek_obj_id heap obj_id fuel cur_obj

def chained_hashtable_delete_obj_id_v2 (obj_id : ObjId) : Option (HashTable × Bool) := do
  let hv := bucket hash t.hashpower obj_id
  match t.ptr_table hv with
  | none => return (t, false)
  | some head =>
    let o ← t.heap.lookup head
    if o.obj_id = obj_id then
      return (free_owned { t with ptr_table := update t.ptr_table hv o.hash_next, n_obj := t.n_obj - 1 } head, true)
    let (prev_obj, cur_obj) ← seek_obj_id t.heap obj_id t.heap.entries.length head
    match cur_obj with
    | none => return (t, false)
    | some cur_obj =>
      let prev ← t.heap.lookup prev_obj
      let cur ← t.heap.lookup cur_obj
      return (free_owned { t with heap := set_hash_next t.heap prev_obj prev cur.hash_next, n_obj := t.n_obj - 1 } cur_obj, true)

/-- The search for a bucket that is not empty; `k` random numbers are used up. -/
def rand_bucket (rand : Nat → Nat) : Nat → HashTable → Nat → Nat → Nat → Option (HashTable × Nat × Nat)
  | fuel, t, pos, k, n_tries =>
    if (t.ptr_table pos).isSome then some (t, pos, k)
    else
      match fuel with
      | 0 => none
      | fuel + 1 => do
        let t ← if n_tries + 1 > 32 then _chained_hashtable_shrink_v2 hash t else some t
        rand_bucket rand fuel t (rand k &&& hashmask t.hashpower) (k + 1) (n_tries + 1)

/-- After 32 tries each one halves the table. -/
def chained_hashtable_rand_obj_v2 (rand : Nat → Nat) : Option (HashTable × Ptr) := do
  let (t, pos, k) ← rand_bucket hash rand (33 + t.hashpower) t (rand 0 &&& hashmask t.hashpower) 1 0
  let chain := bucket_chain t pos
  let cur_obj ← chain[rand k % chain.length]?
  return (t, cur_obj)

end

end CacheSim.Hash
