import CacheSim.Lib.Double
import CacheSim.Lru

/-!
# LIRS (`LIRS.c`)

Blocks with low inter-reference recency (LIR) live in stack `S` alone. Resident blocks of high
recency (HIR) live in queue `Q`, and in `S` as long as they are recent; `S` also keeps HIR blocks
that are gone, and `LRU_nh` lists those.
-/

namespace CacheSim.Lirs

open Lib

/-- `LIRS_obj_params_t` -/
structure Md where
  is_LIR : Bool := false
  in_cache : Bool := false
deriving DecidableEq, Repr

abbrev Block := Sigma fun _ : ObjId => FifoObj Md

/-- The fields of `cache_t` and of `LIRS_params_t`. -/
structure State where
  cache_size : Int
  obj_md_size : Int := 0
  n_req : Int := 0
  occupied_byte : Int := 0
  n_obj : Int := 0
  LRU_s : Lru Md
  LRU_q : Lru Md
  LRU_nh : Lru Md
  hirs_limit : Int
  lirs_limit : Int
  hirs_count : Int := 0
  lirs_count : Int := 0
  nonresident : Int := 0
  inflight : Finset ObjId := ∅

/-- The `double` 0.01 is this number over `2 ^ 59`. -/
def hirs_ratio : Nat := 5764607523034235

/-- `MAX(1, (uint64_t)(params->hirs_ratio * cache->cache_size))` -/
def hirs_limit_of (cache_size : Nat) : Nat := max 1 (round53 (hirs_ratio * round53 cache_size) / 2 ^ 59)

def LIRS_init (cache_size : Nat) (consider_obj_metadata : Bool) : State :=
  let obj_md_size := if consider_obj_metadata then 8 * 2 else 0
  let hirs_limit : Int := hirs_limit_of cache_size
  let lirs_limit : Int := cache_size - hirs_limit
  { cache_size := cache_size
    obj_md_size := obj_md_size
    hirs_limit := hirs_limit
    lirs_limit := lirs_limit
    LRU_s := { cache_size := lirs_limit, obj_md_size := obj_md_size }
    LRU_q := { cache_size := hirs_limit, obj_md_size := obj_md_size }
    LRU_nh := { cache_size := cache_size, obj_md_size := obj_md_size } }

/-! ## Moving blocks -/

def obj_to_request (e : Block) : Request := { obj_id := e.1, obj_size := e.2.obj_size }

variable (s : State)

def lirs_is_inflight (id : ObjId) : Bool := decide (id ∈ s.inflight)

def forget (e : Block) : State :=
  let (LRU_nh, res) := s.LRU_nh.LRU_remove e.1
  { s with LRU_nh := LRU_nh, nonresident := if res then s.nonresident - e.2.obj_size else s.nonresident }

/-- The resident HIR block that was evicted stays in `S`, if it is there, as a non-resident one. -/
def mark_nonresident (e : Block) : State :=
  match s.LRU_s.q.lookup e.1 with
  | none => s
  | some obj_to_update =>
    { s with
      LRU_s := s.LRU_s.set_md e.1 obj_to_update { obj_to_update.md with in_cache := false }
      LRU_nh := s.LRU_nh.LRU_insert (obj_to_request e) {}
      nonresident := s.nonresident + obj_to_update.obj_size }

/-- Whether a block was evicted. The oldest one is not, if the request in service needs it. -/
def evictHIR : Option (State × Bool) := do
  let obj_to_evict ← s.LRU_q.LRU_to_evict
  if lirs_is_inflight s obj_to_evict.1 then
    return (s, false)
  let LRU_q ← s.LRU_q.LRU_evict
  let s := mark_nonresident { s with hirs_count := s.hirs_count - obj_to_evict.2.obj_size, LRU_q := LRU_q } obj_to_evict
  return ({ s with
    occupied_byte := s.occupied_byte - (obj_to_evict.2.obj_size + s.obj_md_size)
    n_obj := s.n_obj - 1 }, true)

/-- `while (params->hirs_count + size > params->hirs_limit) if (!evictHIR(cache)) break;` -/
def make_room (size : Int) (s : State) : Option State :=
  (whileLoop (fun w => w.2 && w.1.hirs_count + size > w.1.hirs_limit) (fun w => evictHIR w.1)
    (s.LRU_q.q.entries.length + 1) (s, true)).map (·.1)

/-- The block at the bottom of `S` that pruning takes: the top is left alone. -/
def obj_to_remove : Option Block := do
  let q_tail ← s.LRU_s.q.entries.getLast?
  let q_head ← s.LRU_s.q.entries.head?
  if q_tail.1 = q_head.1 ∨ q_tail.2.md.is_LIR then none else some q_tail

def LIRS_prune_step : Option State := do
  let e ← obj_to_remove s
  let s := if e.2.md.in_cache then s else forget s e
  let LRU_s ← s.LRU_s.LRU_evict
  return { s with LRU_s := LRU_s }

def LIRS_prune : Option State :=
  whileLoop (fun s => (obj_to_remove s).isSome) LIRS_prune_step s.LRU_s.q.entries.length s

def demote_to_Q (e : Block) : Option State :=
  if e.2.obj_size ≤ s.hirs_limit then do
    let s ← make_room e.2.obj_size s
    return { s with
      LRU_q := s.LRU_q.LRU_insert (obj_to_request e) { is_LIR := false, in_cache := true }
      hirs_count := s.hirs_count + e.2.obj_size
      occupied_byte := s.occupied_byte + (e.2.obj_size + s.obj_md_size)
      n_obj := s.n_obj + 1 }
  else some s

def evictLIR : Option State := do
  let obj_to_evict ← s.LRU_s.LRU_to_evict
  let LRU_s ← s.LRU_s.LRU_evict
  let s ← demote_to_Q
    { s with
      lirs_count := s.lirs_count - obj_to_evict.2.obj_size
      LRU_s := LRU_s
      occupied_byte := s.occupied_byte - (obj_to_evict.2.obj_size + s.obj_md_size)
      n_obj := s.n_obj - 1 } obj_to_evict
  LIRS_prune s

/-- `while (params->lirs_count + size > params->lirs_limit) evictLIR(cache);` -/
def make_LIR_room (size : Int) (s : State) : Option State :=
  whileLoop (fun s => s.lirs_count + size > s.lirs_limit) evictLIR s.LRU_s.q.entries.length s

def hit_RD_HIRinS (id : ObjId) (cache_obj_s : FifoObj Md) (cache_obj_q : Option (FifoObj Md)) :
    Option State := do
  let s := match cache_obj_q with
    | none => s
    | some obj =>
      { s with
        hirs_count := s.hirs_count - obj.obj_size
        LRU_q := (s.LRU_q.LRU_remove id).1
        occupied_byte := s.occupied_byte - obj.obj_size
        n_obj := s.n_obj - 1 }
  let s ← make_LIR_room cache_obj_s.obj_size s
  let cache_obj_s ← s.LRU_s.q.lookup id
  return { s with
    LRU_s := s.LRU_s.set_md id cache_obj_s { cache_obj_s.md with is_LIR := true }
    lirs_count := s.lirs_count + cache_obj_s.obj_size
    occupied_byte := s.occupied_byte + cache_obj_s.obj_size
    n_obj := s.n_obj + 1 }

/-- The loop reads the size in `cache_obj_q` also after a demotion has evicted and freed that object.
Here that is the size it had. -/
def hit_RD_HIRinQ (id : ObjId) (cache_obj_q : FifoObj Md) : Option State := do
  let s ← make_LIR_room cache_obj_q.obj_size s
  return { s with
    LRU_s := s.LRU_s.LRU_insert (obj_to_request ⟨id, cache_obj_q⟩) { is_LIR := false, in_cache := true } }

variable (req : Request)

def LIRS_find (update_cache : Bool) : Option (State × Bool) :=
  let (LRU_s, obj_s) := s.LRU_s.LRU_find req update_cache
  let (LRU_q, obj_q) := s.LRU_q.LRU_find req update_cache
  let s := { s with LRU_s := LRU_s, LRU_q := LRU_q }
  if update_cache = false then
    match obj_s, obj_q with
    | some obj_s, _ => some (s, obj_s.md.is_LIR || obj_s.md.in_cache)
    | none, some obj_q => some (s, obj_q.md.in_cache)
    | none, none => some (s, false)
  else
    match obj_s, obj_q with
    | some obj_s, obj_q =>
      if obj_s.md.is_LIR then (LIRS_prune s).map (·, true)
      else if obj_s.md.in_cache then (hit_RD_HIRinS s req.obj_id obj_s obj_q).map (·, true)
      else some (s, false)
    | none, some obj_q =>
      -- `assert(false)`
      if obj_q.md.in_cache then (hit_RD_HIRinQ s req.obj_id obj_q).map (·, true) else none
    | none, none => some (s, false)

/-! ## Misses -/

def is_nonresident (o : FifoObj Md) : Bool := !o.md.is_LIR && !o.md.in_cache

/-- `none` at the `abort()`. -/
def LIRS_can_insert : Option (State × Bool) :=
  if req.obj_size + s.obj_md_size > s.cache_size then some (s, false)
  else
    match s.LRU_s.q.lookup req.obj_id, s.LRU_q.q.lookup req.obj_id with
    | some obj_s, _ =>
      if is_nonresident obj_s then do
        let s ← make_LIR_room obj_s.obj_size s
        return (forget s ⟨req.obj_id, obj_s⟩, true)
      else none
    | none, some _ => none
    | none, none =>
      if req.obj_size > s.lirs_limit ∨ req.obj_size > s.hirs_limit then some (s, false)
      else if s.lirs_count + req.obj_size > s.lirs_limit ∧ s.hirs_count + req.obj_size > s.hirs_limit then
        (make_room req.obj_size s).map (·, true)
      else some (s, true)

def insert_HIR : State :=
  { s with
    LRU_s := s.LRU_s.LRU_insert req { is_LIR := false, in_cache := true }
    LRU_q := s.LRU_q.LRU_insert req { is_LIR := false, in_cache := true }
    hirs_count := s.hirs_count + req.obj_size
    occupied_byte := s.occupied_byte + (req.obj_size + s.obj_md_size)
    n_obj := s.n_obj + 1 }

def insert_LIR : State :=
  { s with
    LRU_s := s.LRU_s.LRU_insert req { is_LIR := true, in_cache := true }
    lirs_count := s.lirs_count + req.obj_size
    occupied_byte := s.occupied_byte + (req.obj_size + s.obj_md_size)
    n_obj := s.n_obj + 1 }

def LIRS_insert : State :=
  match s.LRU_s.q.lookup req.obj_id, s.LRU_q.q.lookup req.obj_id with
  | some obj_s, _ =>
    if is_nonresident obj_s then
      { s with
        LRU_s := s.LRU_s.set_md req.obj_id obj_s { is_LIR := true, in_cache := true }
        lirs_count := s.lirs_count + obj_s.obj_size
        occupied_byte := s.occupied_byte + (obj_s.obj_size + s.obj_md_size)
        n_obj := s.n_obj + 1 }
    else s
  | none, some obj_q => if obj_q.md.in_cache then s else insert_HIR s req
  | none, none =>
    -- The last two branches of the source do the same.
    if s.lirs_count + req.obj_size ≤ s.lirs_limit then insert_LIR s req else insert_HIR s req

/-! ## Eviction -/

/-- `while (params->hirs_count >= params->hirs_limit) if (!evictHIR(cache)) break;` with whether one was. -/
def trim_HIR : Option (State × Bool) := do
  let (w, acted) ← whileLoop (fun w => w.1.2 && w.1.1.hirs_count ≥ w.1.1.hirs_limit)
    (fun w => (evictHIR w.1.1).map fun r => (r, w.2 || r.2)) (s.LRU_q.q.entries.length + 1) ((s, true), false)
  return (w.1, acted)

def LIRS_evict_once : Option (State × Bool) :=
  match s.LRU_s.q.lookup req.obj_id, s.LRU_q.q.lookup req.obj_id with
  | some obj_s, _ =>
    if is_nonresident obj_s then do
      let (s, _) ← trim_HIR s
      let s ← evictLIR s
      return (s, true)
    else some (s, false)
  | none, some obj_q => if obj_q.md.in_cache then some (s, false) else trim_HIR s
  | none, none =>
    if s.lirs_count + req.obj_size > s.lirs_limit ∧ s.hirs_count + req.obj_size > s.hirs_limit then evictHIR s
    else some (s, false)

def force_demote (occupied_before : Int) (w : State × Option Bool) : Option (State × Option Bool) := do
  let s ← evictLIR w.1
  if s.occupied_byte < occupied_before then
    return (s, some true)
  if s.LRU_q.n_obj > 0 then
    let (s, res) ← evictHIR s
    return (s, some res)
  return (s, none)

def LIRS_force_evict_one : Option (State × Bool) :=
  if s.LRU_q.n_obj > 0 then evictHIR s
  else do
    let (s, res) ← whileLoop (fun w => w.2.isNone && w.1.lirs_count > 0) (force_demote s.occupied_byte)
      s.LRU_s.q.entries.length (s, none)
    return (s, res.getD false)

/-- One round of the loop in `LIRS_evict`. The flag is `some true` at its `return` and `some false` at its `break`. -/
def evict_round (occupied_before : Int) (w : State × Option Bool) : Option (State × Option Bool) := do
  let (s, acted) ← LIRS_evict_once w.1 req
  if s.occupied_byte < occupied_before then
    return (s, some true)
  if !acted || (s.occupied_byte == w.1.occupied_byte && s.lirs_count == w.1.lirs_count &&
      s.hirs_count == w.1.hirs_count) then
    return (s, some false)
  return (s, none)

def LIRS_evict : Option State := do
  let (s, res) ← whileLoop (fun w => w.2.isNone) (evict_round req s.occupied_byte)
    (s.LRU_s.q.entries.length + 1) (s, none)
  if res = some true then
    return s
  let (s, _) ← LIRS_force_evict_one s
  return s

/-- `freed obj` is what a read of `obj` yields after `LRU_remove` has freed it. -/
def LIRS_remove (freed : FifoObj Md → FifoObj Md) (obj_id : ObjId) : Option (State × Bool) :=
  match s.LRU_s.q.lookup obj_id, s.LRU_q.q.lookup obj_id with
  | some obj_s, obj_q =>
    if obj_s.md.is_LIR then
      (LIRS_prune { s with
        LRU_s := (s.LRU_s.LRU_remove obj_id).1
        lirs_count := s.lirs_count - (freed obj_s).obj_size
        occupied_byte := s.occupied_byte - (freed obj_s).obj_size
        n_obj := s.n_obj - 1 }).map (·, true)
    else
      let s :=
        if obj_s.md.in_cache then
          { s with
            LRU_s := (s.LRU_s.LRU_remove obj_id).1
            hirs_count := s.hirs_count - (freed obj_s).obj_size
            occupied_byte := s.occupied_byte - (freed obj_s).obj_size
            n_obj := s.n_obj - 1 }
        else { s with LRU_s := (s.LRU_s.LRU_remove obj_id).1, nonresident := s.nonresident - (freed obj_s).obj_size }
      match obj_q with
      | some _ => some ({ s with LRU_q := (s.LRU_q.LRU_remove obj_id).1 }, true)
      | none => some (s, true)
  | none, some obj_q =>
    -- `assert(false)`
    if (freed obj_q).md.in_cache then
      some ({ s with
        LRU_q := (s.LRU_q.LRU_remove obj_id).1
        hirs_count := s.hirs_count - (freed obj_q).obj_size
        occupied_byte := s.occupied_byte - (freed obj_q).obj_size
        n_obj := s.n_obj - 1 }, true)
    else none
  | none, none => some (s, false)

/-! ## Get -/

def limitStack_step : Option State := do
  let obj_to_evict ← s.LRU_nh.LRU_to_evict
  let LRU_nh ← s.LRU_nh.LRU_evict
  return { s with
    nonresident := s.nonresident - obj_to_evict.2.obj_size
    LRU_s := (s.LRU_s.LRU_remove obj_to_evict.1).1
    LRU_nh := LRU_nh }

def limitStack : Option State :=
  whileLoop (fun s => s.LRU_nh.LRU_to_evict.isSome && s.LRU_s.occupied_byte > 2 * s.cache_size) limitStack_step
    s.LRU_nh.q.entries.length s

def ops : CacheOps State where
  count_req s := { s with n_req := s.n_req + 1 }
  find s req := LIRS_find s req true
  can_insert := LIRS_can_insert
  get_occupied_byte s := s.occupied_byte
  obj_md_size s := s.obj_md_size
  cache_size s := s.cache_size
  evict := LIRS_evict
  insert s req := some (LIRS_insert s req)

def LIRS_get : Option (State × Bool) := do
  let (s, res) ← ops.cache_get_base (fun s => s.occupied_byte.toNat) s req
  let s ← limitStack s
  return (s, res)

end CacheSim.Lirs
