import CacheSim.Cache
import CacheSim.Lib.Partition

/-!
# The directory that ARC and CAR share

Two lists of resident objects and two of ghosts, all four in one hash table. `L1_data` is T1 of
the papers, `L1_ghost` B1, `L2_data` T2 and `L2_ghost` B2.
-/

namespace CacheSim.Directory

open Lib Function

inductive ListId where
  | L1_data | L1_ghost | L2_data | L2_ghost
deriving DecidableEq, Repr

/-- `cache_obj_t` with `ARC_obj_metadata_t` or `CAR_obj_metadata_t`. Only CAR has `reference`. -/
structure Obj where
  obj_size : Int
  lru_id : Nat := 0
  ghost : Bool := false
  reference : Bool := false
deriving DecidableEq, Repr

/-- The list that an object's flags name. The code takes every `lru_id` other than 1 as 2. -/
def Obj.listId (o : Obj) : ListId :=
  if o.lru_id = 1 then (if o.ghost then .L1_ghost else .L1_data)
  else (if o.ghost then .L2_ghost else .L2_data)

/-- The part of `cache_t` and of `ARC_params_t` or `CAR_params_t` that both policies have. -/
structure Dir where
  cache_size : Int
  obj_md_size : Int
  /-- `admissioner->admit`, when there is an admissioner -/
  admissioner : Option (Request → Bool) := none
  n_req : Int := 0
  occupied_byte : Int := 0
  n_obj : Int := 0
  /-- the hash table, and the lists from head to tail -/
  dir : Part ListId ObjId Obj := ⟨fun _ => none, fun _ => []⟩
  /-- `L1_data_size` and so on -/
  size : ListId → Int := fun _ => 0

def push (at_head : Bool) (i : ObjId) (l : List ObjId) : List ObjId :=
  if at_head then i :: l else l ++ [i]

theorem push_perm (at_head : Bool) (i : ObjId) (l : List ObjId) : (push at_head i l).Perm (i :: l) := by
  cases at_head
  · exact List.perm_append_singleton i l
  · exact List.Perm.refl _

namespace Dir

variable (d : Dir)

/-- `obj->obj_size + cache->obj_md_size` -/
def charge (o : Obj) : Int := o.obj_size + d.obj_md_size

def head (k : ListId) : Option ObjId := (d.dir.list k).head?

def tail (k : ListId) : Option ObjId := (d.dir.list k).getLast?

@[simps -fullyApplied]
def count_req : Dir := { d with n_req := d.n_req + 1 }

@[simps -fullyApplied]
def add_size (k : ListId) (n : Int) : Dir := { d with size := update d.size k (d.size k + n) }

@[simps -fullyApplied]
def set_list (k : ListId) (l : List ObjId) : Dir :=
  { d with dir := { d.dir with list := update d.dir.list k l } }

def remove_obj_from_list (k : ListId) (i : ObjId) : Dir := d.set_list k ((d.dir.list k).erase i)

def link (at_head : Bool) (k : ListId) (i : ObjId) : Dir := d.set_list k (push at_head i (d.dir.list k))

def move (at_head : Bool) (k : ListId) (i : ObjId) : Dir :=
  d.set_list k (push at_head i ((d.dir.list k).erase i))

@[simps -fullyApplied]
def set_obj (i : ObjId) (o : Obj) : Dir :=
  { d with dir := { d.dir with table := update d.dir.table i (some o) } }

@[simps -fullyApplied]
def hashtable_delete (i : ObjId) : Dir :=
  { d with dir := { d.dir with table := update d.dir.table i none } }

/-- Inserts into the hash table and counts the bytes; the lists are the policy's part. -/
def cache_insert_base (req : Request) : Dir :=
  { d.set_obj req.obj_id { obj_size := req.obj_size } with
    occupied_byte := d.occupied_byte + (req.obj_size + d.obj_md_size)
    n_obj := d.n_obj + 1 }

@[simps -fullyApplied]
def cache_remove_obj_base (i : ObjId) (o : Obj) (remove_from_hashtable : Bool) : Dir :=
  { (if remove_from_hashtable then d.hashtable_delete i else d) with
    occupied_byte := d.occupied_byte - d.charge o
    n_obj := d.n_obj - 1 }

/-- Without a prefetcher this is `cache_remove_obj_base`. -/
def cache_evict_base (i : ObjId) (o : Obj) (remove_from_hashtable : Bool) : Dir :=
  d.cache_remove_obj_base i o remove_from_hashtable

def cache_can_insert_default (req : Request) : Bool :=
  match d.admissioner with
  | some allows => allows req && !(req.obj_size + d.obj_md_size > d.cache_size)
  | none => !(req.obj_size + d.obj_md_size > d.cache_size)

/-! ### What the policies do to one object

The statements of a C function that touch different fields commute, so one definition serves all
functions that make the same changes. -/

def discard (i : ObjId) (o : Obj) : Dir :=
  ((d.add_size o.listId (-d.charge o)).remove_obj_from_list o.listId i).hashtable_delete i

def drop (i : ObjId) (o : Obj) : Dir :=
  ((d.add_size o.listId (-d.charge o)).remove_obj_from_list o.listId i).cache_remove_obj_base i o true

def demote (i : ObjId) (o : Obj) : Dir :=
  let o' := { o with ghost := true }
  ((((d.add_size o.listId (-d.charge o)).add_size o'.listId (d.charge o)).remove_obj_from_list o.listId
    i).link true o'.listId i).set_obj i o' |>.cache_evict_base i o false

def promote (i : ObjId) (o : Obj) (at_head : Bool) (reference : Bool) : Dir :=
  ((((d.add_size .L1_data (-d.charge o)).add_size .L2_data (d.charge o)).remove_obj_from_list
    .L1_data i).link at_head .L2_data i).set_obj i { o with lru_id := 2, reference := reference }

/-- The object of `req` enters the list of `lru_id` as a resident, at the head or at the tail. -/
def enter (req : Request) (lru_id : Nat) (at_head : Bool) : Dir :=
  let o : Obj := { obj_size := req.obj_size, lru_id := lru_id }
  (((d.cache_insert_base req).set_obj req.obj_id o).link at_head o.listId req.obj_id).add_size
    o.listId (req.obj_size + d.obj_md_size)

/-- `ARC_remove` and `CAR_remove`. The branch for ghosts leaves the hash table as it is. -/
def remove (id : ObjId) : Dir × Bool :=
  match d.dir.table id with
  | none => (d, false)
  | some obj =>
    if obj.ghost then
      ((d.add_size obj.listId (-d.charge obj)).remove_obj_from_list obj.listId id, true)
    else
      (d.drop id obj, true)

end Dir

/-! ## Specification -/

def ListId.flags : ListId → Nat × Bool
  | .L1_data => (1, false)
  | .L1_ghost => (1, true)
  | .L2_data => (2, false)
  | .L2_ghost => (2, true)

def Dir.listBytes (d : Dir) (k : ListId) : Int :=
  ((d.dir.list k).map fun i => match d.dir.table i with
    | some o => o.obj_size + d.obj_md_size
    | none => 0).sum

structure Dir.Consistent (d : Dir) : Prop where
  nodup : ∀ k, (d.dir.list k).Nodup
  disjoint : ∀ k k', k ≠ k' → (d.dir.list k).Disjoint (d.dir.list k')
  covers : ∀ i, d.dir.table i ≠ none ↔ ∃ k, i ∈ d.dir.list k
  flags : ∀ k, ∀ i ∈ d.dir.list k, ∃ o, d.dir.table i = some o ∧ (o.lru_id, o.ghost) = k.flags
  sizes : ∀ k, d.size k = d.listBytes k
  occupied : d.occupied_byte = d.size .L1_data + d.size .L2_data

def Dir.Ghost (d : Dir) (i : ObjId) : Prop := ∃ o, d.dir.table i = some o ∧ o.ghost = true

def Dir.Resident (d : Dir) (i : ObjId) : Prop := ∃ o, d.dir.table i = some o ∧ o.ghost = false

def Dir.Loses (d d' : Dir) : Prop := ∃ i, d.Resident i ∧ ∀ j, d'.Resident j ↔ d.Resident j ∧ j ≠ i

/-- What a user's remove of `i` promises: `d` before, `d'` after, `ret` the value returned. -/
structure Dir.Removed (d d' : Dir) (ret : Bool) (i : ObjId) : Prop where
  returns : ret = true ↔ d.Resident i
  absent : d'.dir.table i = none
  unlisted : ∀ k, i ∉ d'.dir.list k
  others : ∀ j ≠ i, d'.dir.table j = d.dir.table j ∧ ∀ k, j ∈ d'.dir.list k ↔ j ∈ d.dir.list k
  sizes : ∀ k, d'.size k = d'.listBytes k ∧ 0 ≤ d'.size k

end CacheSim.Directory
