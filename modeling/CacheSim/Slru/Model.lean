import CacheSim.Pin

/-!
# Segmented LRU (`SLRU.c`)

A hit lifts an object into the next segment. A segment that is too full hands its tail down to the
one below, and the lowest one evicts.
-/

namespace CacheSim.Slru

open Lib Function

structure Obj where
  obj_size : Int
  lru_id : Nat
deriving DecidableEq, Repr

/-- `cache_t` with `SLRU_params_t`. -/
structure State where
  cache_size : Int
  obj_md_size : Int
  n_req : Int := 0
  occupied_byte : Int := 0
  n_obj : Int := 0
  hashtable : Table ObjId Obj := ∅
  /-- each from `lru_heads[i]` to `lru_tails[i]` -/
  segs : Nat → List ObjId := fun _ => []
  lru_n_bytes : Nat → Int := fun _ => 0
  lru_n_objs : Nat → Int := fun _ => 0
  lru_max_n_bytes : Nat → Int
  n_seg : Nat

/-- `seg_size` is what the parameter of that name makes of the capacity. Without it the segments are
even, and the upper ones take the remainder. -/
def SLRU_init (cache_size : Int) (consider_obj_metadata : Bool) (n_seg : Nat) (seg_size : Option (Nat → Int)) : State where
  cache_size := cache_size
  obj_md_size := if consider_obj_metadata then 16 else 0
  n_seg := n_seg
  lru_max_n_bytes := seg_size.getD fun i =>
    cache_size / n_seg + if (i : Int) ≥ n_seg - cache_size % n_seg then 1 else 0

def add (counter : Nat → Int) (i : Nat) (n : Int) : Nat → Int := update counter i (counter i + n)

variable (s : State)

/-- The object goes to the head of segment `i`, and `n_bytes` go with it from counter to counter. -/
def move_to_seg (id : ObjId) (obj : Obj) (i : Nat) (n_bytes : Int) : State :=
  let segs := update s.segs obj.lru_id ((s.segs obj.lru_id).erase id)
  { s with
    segs := update segs i (id :: segs i)
    hashtable := s.hashtable.insert id { obj with lru_id := i }
    lru_n_bytes := add (add s.lru_n_bytes obj.lru_id (-n_bytes)) i n_bytes
    lru_n_objs := add (add s.lru_n_objs obj.lru_id (-1)) i 1 }

def SLRU_promote_to_next_seg (id : ObjId) (obj : Obj) : State :=
  move_to_seg s id obj (obj.lru_id + 1) (obj.obj_size + s.obj_md_size)

/-- A segment whose byte counter is not positive is passed over, whatever it holds. -/
def live_segs : List Nat := (List.range s.n_seg).filter fun i => s.lru_n_bytes i > 0

def SLRU_to_evict (pin : Pin) (s : State) : Option ObjId :=
  let candidate := (live_segs s).findSome? fun i => (pin.cache_skip_pinned (s.segs i)).filter fun id => !pin.is_pinned id
  let fallback := (live_segs s).findSome? fun i => (s.segs i).getLast?
  candidate.or fallback

def remove_obj (id : ObjId) (obj : Obj) : State :=
  { s with
    segs := update s.segs obj.lru_id ((s.segs obj.lru_id).erase id)
    hashtable := s.hashtable.erase id
    occupied_byte := s.occupied_byte - (obj.obj_size + s.obj_md_size)
    n_obj := s.n_obj - 1 }

/-- `none` if there is no candidate: the code follows a null pointer. -/
def SLRU_evict (pin : Pin) (s : State) : Option State := do
  let id ← SLRU_to_evict pin s
  let obj ← s.hashtable.lookup id
  return remove_obj { s with
    lru_n_bytes := add s.lru_n_bytes obj.lru_id (-(obj.obj_size + s.obj_md_size))
    lru_n_objs := add s.lru_n_objs obj.lru_id (-1) } id obj

def SLRU_remove (id : ObjId) : State × Bool :=
  match s.hashtable.lookup id with
  | none => (s, false)
  | some obj => (remove_obj s id obj, true)

/-- Every call of `SLRU_cool` moves an object one segment down or evicts one. -/
def moves_left : Nat := (s.hashtable.entries.map fun e => e.2.lru_id + 1).sum

def too_full (i : Nat) (s : State) : Bool := s.lru_n_bytes i > s.lru_max_n_bytes i

def SLRU_cool (pin : Pin) : Nat → State → Option State
  | 0, s => SLRU_evict pin s
  | i + 1, s => do
    let id ← (s.segs (i + 1)).getLast?
    let obj ← s.hashtable.lookup id
    let s := move_to_seg s id obj i obj.obj_size
    whileLoop (too_full i) (SLRU_cool pin i) (moves_left s) s

/-- The segment that the loop of `SLRU_find` looks at is that of the object, wherever it is by now.
If the object itself was evicted the code reads freed memory. -/
def cool_for (pin : Pin) (id : ObjId) (s : State) : Option State :=
  whileLoop (fun s => (s.hashtable.lookup id).all fun obj => too_full obj.lru_id s)
    (fun s => do
      let obj ← s.hashtable.lookup id
      SLRU_cool pin obj.lru_id s) (moves_left s) s

/-! ## Lookup and insertion -/

def SLRU_find (pin : Pin) (s : State) (req : Request) : Option (State × Bool) :=
  match s.hashtable.lookup req.obj_id with
  | none => some (s, false)
  | some obj =>
    if obj.lru_id + 1 = s.n_seg then
      let seg := req.obj_id :: (s.segs obj.lru_id).erase req.obj_id
      some ({ s with segs := update s.segs obj.lru_id seg }, true)
    else
      (cool_for pin req.obj_id (SLRU_promote_to_next_seg s req.obj_id obj)).map fun s => (s, true)

def SLRU_can_insert (req : Request) : Bool :=
  !(req.obj_size + s.obj_md_size > s.cache_size) && req.obj_size + s.obj_md_size ≤ s.lru_max_n_bytes 0

def full_for (req : Request) (s : State) : Bool := s.occupied_byte + req.obj_size + s.obj_md_size > s.cache_size

def choose_seg (pin : Pin) (s : State) (req : Request) : Option (State × Nat) :=
  match (List.range s.n_seg).find? fun i => s.lru_n_bytes i + req.obj_size + s.obj_md_size ≤ s.lru_max_n_bytes i with
  | some i => some (s, i)
  | none => (whileLoop (full_for req) (SLRU_evict pin) s.hashtable.entries.length s).map fun s => (s, 0)

def SLRU_insert (pin : Pin) (s : State) (req : Request) : Option State := do
  let (s, nth_seg) ← choose_seg pin s req
  return { s with
    occupied_byte := s.occupied_byte + (req.obj_size + s.obj_md_size)
    n_obj := s.n_obj + 1
    hashtable := s.hashtable.insert req.obj_id { obj_size := req.obj_size, lru_id := nth_seg }
    segs := update s.segs nth_seg (req.obj_id :: s.segs nth_seg)
    lru_n_bytes := add s.lru_n_bytes nth_seg (req.obj_size + s.obj_md_size)
    lru_n_objs := add s.lru_n_objs nth_seg 1 }

def ops (pin : Pin) : CacheOps State where
  count_req s := { s with n_req := s.n_req + 1 }
  find s req := SLRU_find pin s req
  can_insert s req := some (s, SLRU_can_insert s req)
  get_occupied_byte s := s.occupied_byte
  obj_md_size s := s.obj_md_size
  cache_size s := s.cache_size
  evict s _ := SLRU_evict pin s
  insert s req := SLRU_insert pin s req

def SLRU_get (pin : Pin) (s : State) (req : Request) : Option (State × Bool) :=
  (ops pin).cache_get_base (fun s => s.hashtable.entries.length) s req

def call : State → Pin.Call → Option State := Pin.call SLRU_get SLRU_evict SLRU_remove

end CacheSim.Slru
