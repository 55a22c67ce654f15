import CacheSim.Fifo

/-!
# Merlin (`merlin.cpp`)

Four FIFO queues: objects enter `filter`, may pass through `staging` into `core`, and leave a record
in `ghost`. A histogram of the frequencies of all records sets the guard for `core`.
-/

namespace CacheSim.Merlin

open Lib Function

def kMaxFrequency : Nat := 7

/-- `MERLIN_obj_metadata_t` -/
structure Md where
  freq : Nat := 0
  inghost : Bool := false
deriving DecidableEq, Repr

inductive Tier where
  | filter | staging | core | ghost
deriving DecidableEq, Repr

/-- What Merlin calls of `minimalIncrementCBF`. -/
structure Sketch (κ : Type) where
  add : κ → ObjId → κ
  estimate : κ → ObjId → Int
  decay : κ → κ

/-- The fields of `cache_t` and of `merlin_params_t` that change, and the limits. -/
structure State (κ : Type) where
  cache_size : Int
  obj_md_size : Int
  n_req : Int := 0
  queue : Tier → Fifo Md
  filter_limit : Int
  core_limit : Int
  ghost_limit : Int
  sketch : κ
  epoch_count : Int := 0
  epoch_update : Int
  guard_freq : Nat := 2
  frequency_population : Nat → Int := fun _ => 0
  evictions_in_epoch : Int := 0
  ghost_freq : Nat := 0
  ghost_hit : Bool := false
  promote_ghost_to_core : Bool := false

variable {κ : Type} (K : Sketch κ)

def decrease_population (frequency_population : Nat → Int) (ori_freq : Nat) (dest_freq : Int) : Nat → Int :=
  if (ori_freq : Int) > dest_freq then
    let frequency_population :=
      update frequency_population ori_freq (frequency_population ori_freq - 1)
    match ori_freq with
    | 0 => frequency_population
    | i + 1 => decrease_population frequency_population i dest_freq
  else frequency_population

namespace State

variable (s : State κ)

def set (t : Tier) (c : Fifo Md) : State κ := { s with queue := update s.queue t c }

def insert (t : Tier) (req : Request) (md : Md) : State κ := s.set t ((s.queue t).FIFO_insert req md)

def remove (t : Tier) (id : ObjId) : State κ := s.set t ((s.queue t).FIFO_remove id).1

def decrease (ori_freq : Nat) (dest_freq : Int) : State κ :=
  { s with frequency_population := decrease_population s.frequency_population ori_freq dest_freq }

def bump (f : Nat) : State κ :=
  { s with frequency_population := update s.frequency_population f (s.frequency_population f + 1) }

def sketch_add (id : ObjId) : State κ := { s with sketch := K.add s.sketch id }

def merlin_get_occupied_byte : Int :=
  (s.queue .filter).occupied_byte + (s.queue .staging).occupied_byte + (s.queue .core).occupied_byte

def merlin_get_n_obj : Int := (s.queue .filter).n_obj + (s.queue .staging).n_obj + (s.queue .core).n_obj

def touch (t : Tier) (id : ObjId) (o : FifoObj Md) : State κ :=
  if o.md.freq < kMaxFrequency then
    (s.set t ((s.queue t).set_md id o { o.md with freq := o.md.freq + 1 })).bump (o.md.freq + 1)
  else s

end State

variable (s : State κ)

def find_in (id : ObjId) (queues : List Tier) : Option (Tier × FifoObj Md) :=
  queues.findSome? fun t => ((s.queue t).q.lookup id).map (t, ·)

variable (req : Request)

def merlin_find : State κ × Bool :=
  let s := { s with ghost_hit := false, promote_ghost_to_core := false, ghost_freq := 0 }
  match find_in s req.obj_id [.filter, .staging, .core] with
  | some (t, resident) => (s.touch t req.obj_id resident, true)
  | none =>
    match (s.queue .ghost).q.lookup req.obj_id with
    | none => (s, false)
    | some obj =>
      let freq := if obj.md.freq < kMaxFrequency then obj.md.freq + 1 else obj.md.freq
      let s := s.touch .ghost req.obj_id obj
      ({ s with ghost_hit := true, ghost_freq := freq, promote_ghost_to_core := freq ≥ s.guard_freq }, false)

/-- The ghost's record moves to `core`. Eviction may have trimmed it after `merlin_find`. -/
def insert_promoted : State κ :=
  let s := s.insert .core req { freq := s.ghost_freq }
  let removed := ((s.queue .ghost).FIFO_remove req.obj_id).2
  let s := s.remove .ghost req.obj_id
  if removed then s else (List.range (s.ghost_freq + 1)).foldl State.bump s

def merlin_insert : State κ :=
  if !s.ghost_hit && (s.queue .staging).n_obj == 0 && (s.queue .filter).n_obj == 0 then
    (s.insert .core req {}).bump 0
  else if s.ghost_hit then
    if s.promote_ghost_to_core then
      insert_promoted { s with ghost_hit := false, promote_ghost_to_core := false } req
    else
      let s := { s with ghost_hit := false }
      ((s.sketch_add K req.obj_id).insert .staging req { inghost := true }).bump 0
  else
    (s.insert .filter req {}).bump 0

/-! ## Moving objects between the queues -/

def obj_to_request (e : Sigma fun _ : ObjId => FifoObj Md) : Request := { obj_id := e.1, obj_size := e.2.obj_size }

def add_to_ghost (freq : Nat) : State κ := s.insert .ghost req { freq := freq }

def remove_from_ghost (id : ObjId) : State κ :=
  match (s.queue .ghost).q.lookup id with
  | none => s
  | some obj => (s.decrease obj.md.freq (-1)).remove .ghost id

def adjust_core_step : Option (State κ) := do
  let obj ← (s.queue .core).FIFO_to_evict
  guard (obj.2.md.freq ≤ kMaxFrequency)
  return (s.insert .staging (obj_to_request obj) { freq := obj.2.md.freq }).remove .core obj.1

def adjust_core : Option (State κ) :=
  whileLoop (fun s => s.core_limit < (s.queue .core).occupied_byte) adjust_core_step
    (s.queue .core).q.entries.length s

def evict_staging : Option (State κ) := do
  let staging_to_evict ← (s.queue .staging).FIFO_to_evict
  return (s.decrease staging_to_evict.2.md.freq (-1)).remove .staging staging_to_evict.1

/-- Whether the oldest object of `filter` took the place of a cold one in `staging`. -/
def promote_filter_candidate : State κ × Bool :=
  match (s.queue .filter).FIFO_to_evict, (s.queue .staging).FIFO_to_evict with
  | some filter_to_evict, some staging_to_evict =>
    if staging_to_evict.2.md.freq > 0 then (s, false)
    else if K.estimate s.sketch filter_to_evict.1 > s.epoch_update then (s, false)
    else if K.estimate s.sketch filter_to_evict.1 > K.estimate s.sketch staging_to_evict.1 then
      let s := s.sketch_add K filter_to_evict.1
      let s := (s.insert .staging (obj_to_request filter_to_evict) { inghost := true }).bump 0
      let s := add_to_ghost s (obj_to_request filter_to_evict) filter_to_evict.2.md.freq
      (s.remove .filter filter_to_evict.1, true)
    else (s, false)
  | _, _ => (s, false)

/-- The flag is set at a cold object. A hot one moves to `core`, and `inghost` with it is cleared. -/
def adjust_staging_step (w : State κ × Bool) : Option (State κ × Bool) := do
  let obj ← (w.1.queue .staging).FIFO_to_evict
  let ori_freq := obj.2.md.freq
  if ori_freq = 0 then
    return (w.1, true)
  let s := if obj.2.md.inghost then remove_from_ghost w.1 obj.1 else w.1
  let s := (s.sketch_add K obj.1).insert .core (obj_to_request obj) { freq := ori_freq - 1 }
  return ((s.decrease ori_freq (ori_freq - 1)).remove .staging obj.1, false)

def adjust_staging : Option (State κ × Bool) :=
  whileLoop (fun w => !w.2 && (w.1.queue .staging).occupied_byte > 0) (adjust_staging_step K)
    ((s.queue .staging).q.entries.length + 1) (s, false)

def adjust_filter_step (w : State κ × Bool) : Option (State κ × Bool) := do
  let s := w.1
  let obj ← (s.queue .filter).FIFO_to_evict
  let ori_freq := obj.2.md.freq
  if ori_freq ≥ s.guard_freq then
    let s := (s.insert .core (obj_to_request obj) {}).decrease ori_freq 0
    return ((s.sketch_add K obj.1).remove .filter obj.1, false)
  else
    let (s, promoted) := promote_filter_candidate K s
    if promoted then
      let s ← evict_staging s
      return (s, true)
    else
      let s := add_to_ghost s (obj_to_request obj) ori_freq
      return ((s.sketch_add K obj.1).remove .filter obj.1, true)

def adjust_filter : Option (State κ × Bool) :=
  whileLoop (fun w => !w.2 && (w.1.queue .filter).occupied_byte > 0) (adjust_filter_step K)
    (s.queue .filter).q.entries.length (s, false)

def adjust_ghost_step : Option (State κ) := do
  let obj_to_evict ← (s.queue .ghost).FIFO_to_evict
  return (s.remove .ghost obj_to_evict.1).decrease obj_to_evict.2.md.freq (-1)

def adjust_ghost : Option (State κ) :=
  whileLoop (fun s => (s.queue .ghost).occupied_byte > s.ghost_limit) adjust_ghost_step
    (s.queue .ghost).q.entries.length s

def fitting_guard : Option Nat :=
  let core_population := (s.queue .core).n_obj
  let population := s.frequency_population
  if population s.guard_freq > core_population then
    whileLoop (fun g => g < kMaxFrequency && population g > core_population) (fun g => some (g + 1))
      kMaxFrequency s.guard_freq
  else
    whileLoop (fun g => g > 1 && population (g - 1) < core_population) (fun g => some (g - 1))
      s.guard_freq s.guard_freq

def adjust_guard : Option (State κ) := do
  let guard_freq ← fitting_guard s
  return { s with guard_freq := guard_freq }

/-! ## Eviction -/

def count_eviction : State κ :=
  let s := { s with evictions_in_epoch := s.evictions_in_epoch + 1 }
  if s.evictions_in_epoch ≥ max 1 s.merlin_get_n_obj then
    let s := { s with evictions_in_epoch := 0, epoch_count := s.epoch_count + 1 }
    if s.epoch_count ≥ s.epoch_update then { s with epoch_count := 0, sketch := K.decay s.sketch } else s
  else s

/-- The variables of the exchange between `staging` and `core`; `done` is set by the `return`. -/
structure Exchange (κ : Type) where
  s : State κ
  ret : Bool := false
  done : Bool := false

/-- Neither queue has to give an object up to the other: the oldest of `core` goes, or of `filter`. -/
def evict_core : Option (State κ) :=
  match (s.queue .core).FIFO_to_evict with
  | some victim => some ((s.decrease victim.2.md.freq (-1)).remove .core victim.1)
  | none => (adjust_filter K s).map (·.1)

def exchange_step (w : Exchange κ) : Option (Exchange κ) := do
  let s ← adjust_core w.s
  let (s, ret) ← adjust_staging K s
  if !ret && (s.queue .core).occupied_byte ≤ s.core_limit then
    let s ← evict_core K s
    let s ← adjust_ghost s
    return { s := s, ret := ret, done := true }
  else
    return { s := s, ret := ret }

def exchange : Option (Exchange κ) :=
  whileLoop (fun w => !w.ret && !w.done) (exchange_step K)
    ((((s.queue .staging).q.entries ++ (s.queue .core).q.entries).map (·.2.md.freq)).sum + 1) { s := s }

def merlin_evict (req : Option Request) : Option (State κ) := do
  let s ← adjust_guard (count_eviction K s)
  if s.merlin_get_n_obj = 0 then
    return s
  if (s.queue .filter).n_obj > 0 ∧ (∀ r ∈ req,
      (s.queue .filter).occupied_byte + r.obj_size + s.obj_md_size > s.filter_limit) then
    let (s, _) ← adjust_filter K s
    adjust_ghost s
  else
    let w ← exchange K s
    if w.done then
      return w.s
    let s ← evict_staging (promote_filter_candidate K w.s).1
    adjust_ghost s

def remove_from (id : ObjId) (w : State κ × Bool) (t : Tier) : State κ × Bool :=
  match (w.1.queue t).q.lookup id with
  | none => w
  | some obj => ((w.1.decrease obj.md.freq (-1)).remove t id, true)

def merlin_remove (id : ObjId) : State κ × Bool :=
  let (s, removed) := [Tier.filter, .staging, .core, .ghost].foldl (remove_from id) (s, false)
  ({ s with ghost_hit := false, promote_ghost_to_core := false }, removed)

/-- `allows` is the answer of the admissioner, if there is one, at the request of that number. -/
def merlin_can_insert (allows : Int → Request → Bool) (s : State κ) (req : Request) : Bool :=
  req.obj_size > 0 && req.obj_size ≤ s.filter_limit && s.obj_md_size ≤ s.filter_limit - req.obj_size &&
    (allows s.n_req req && !(req.obj_size + s.obj_md_size > s.cache_size))

def ops (allows : Int → Request → Bool) : CacheOps (State κ) where
  count_req s := { s with n_req := s.n_req + 1 }
  find s req := some (merlin_find s req)
  can_insert s req := some (s, merlin_can_insert allows s req)
  get_occupied_byte s := s.merlin_get_occupied_byte
  obj_md_size s := s.obj_md_size
  cache_size s := s.cache_size
  evict s req := merlin_evict K s (some req)
  insert s req := some (merlin_insert K s req)

def merlin_get (allows : Int → Request → Bool) (fuel : State κ → Nat) (s : State κ) (req : Request) :
    Option (State κ × Bool) :=
  (ops K allows).cache_get_base fuel s req

/-- The three sizes are the products of the ratios with the capacity, as `int64_t`. -/
def merlin_init (cache_size obj_md_size filter_size staging_size ghost_size : Int) (sketch : κ) (epoch_update : Int) :
    State κ :=
  let filter_limit := min cache_size (max 1 filter_size)
  let staging_limit := min (cache_size - filter_limit) (max 1 staging_size)
  let core_limit := cache_size - filter_limit - staging_limit
  { cache_size := cache_size
    obj_md_size := obj_md_size
    queue := fun
      | .filter => { cache_size := filter_limit, obj_md_size := obj_md_size }
      | .staging => { cache_size := staging_limit, obj_md_size := obj_md_size }
      | .core => { cache_size := core_limit, obj_md_size := obj_md_size }
      | .ghost => { cache_size := ghost_size }
    filter_limit := filter_limit
    core_limit := core_limit
    ghost_limit := ghost_size
    sketch := sketch
    epoch_update := epoch_update }

inductive Call where
  | get (req : Request)
  | remove (id : ObjId)

def call (allows : Int → Request → Bool) (fuel : State κ → Nat) (s : State κ) : Call → Option (State κ)
  | .get req => (merlin_get K allows fuel s req).map (·.1)
  | .remove id => some (merlin_remove s id).1

end CacheSim.Merlin
