import CacheSim.LeCaR.Model
import CacheSim.Lib.Double
import CacheSim.Lru

/-!
# Cacheus (`Cacheus.c`, `SR_LRU.c`, `CR_LFU.c`)

Each object is stored twice, with the scan-resistant LRU and with the churn-resistant LFU. Whichever of
the two experts names a victim, the other one removes it, and the history of SR-LRU keeps the frequency that it
had with CR-LFU.
-/

namespace CacheSim.Cacheus

open Lib LeCaR Function

/-- `SR_LRU_obj_metadata_t`, and the frequency that CR-LFU leaves in the history. -/
structure Md where
  demoted : Bool := false
  new_obj : Bool := false
  freq : Int := 0
deriving DecidableEq, Repr, Inhabited

/-- `cache_t` with `SR_LRU_params_t`. -/
structure SrLru where
  obj_md_size : Int
  SR_list : Lru Md
  R_list : Lru Md
  H_list : Lru Md
  C_demoted : Int := 0
  C_new : Int := 0

/-- `cache_t` with `CR_LFU_params_t`. The metadata of an object is its `lfu.freq`. -/
structure CrLfu where
  obj_md_size : Int
  occupied_byte : Int := 0
  n_obj : Int := 0
  hashtable : Table ObjId (FifoObj Int) := ∅
  freq_map : Int → Option FreqNode := update (fun _ => none) 1 (some {})
  min_freq : Int := 1
  max_freq : Int := 1

/-- The two experts; each is the `other_cache` of the other. -/
structure Twin where
  lru : SrLru
  lfu : CrLfu

def SR_LRU_init (cache_size : Int) (consider_obj_metadata : Bool) : SrLru :=
  let list_md_size := if consider_obj_metadata then 16 else 0
  { obj_md_size := if consider_obj_metadata then 2 else 0
    SR_list := { cache_size := cache_size / 2, obj_md_size := list_md_size }
    R_list := { cache_size := cache_size - cache_size / 2, obj_md_size := list_md_size }
    H_list := { cache_size := cache_size, obj_md_size := list_md_size } }

def CR_LFU_init (consider_obj_metadata : Bool) : CrLfu where
  obj_md_size := if consider_obj_metadata then 16 else 0

/-! ## CR-LFU -/

variable (l : CrLfu)

/-- The first frequency above `min_freq`, up to `max_freq`, with an object. -/
def next_freq : Option Int :=
  ((List.range (l.max_freq - l.min_freq).toNat).map fun k : Nat => l.min_freq + 1 + k).find? fun freq =>
    (l.freq_map freq).any fun node => node.n_obj > 0

def unlink (freq : Int) (id : ObjId) : Option (CrLfu × FreqNode) := do
  let node ← l.freq_map freq
  let node := { node with objs := node.objs.erase id, n_obj := node.n_obj - 1 }
  return ({ l with freq_map := update l.freq_map freq (some node) }, node)

def append (id : ObjId) (obj : FifoObj Int) : CrLfu :=
  let new_node := (l.freq_map obj.md).getD {}
  { l with
    freq_map := update l.freq_map obj.md (some { new_node with objs := new_node.objs ++ [id], n_obj := new_node.n_obj + 1 })
    hashtable := l.hashtable.insert id obj }

def CrLfu.cache_remove_obj_base (id : ObjId) (obj : FifoObj Int) : CrLfu :=
  { l with
    hashtable := l.hashtable.erase id
    occupied_byte := l.occupied_byte - (obj.obj_size + l.obj_md_size)
    n_obj := l.n_obj - 1 }

def CR_LFU_find (req : Request) (update_cache : Bool) : Option (CrLfu × Bool) :=
  match l.hashtable.lookup req.obj_id with
  | none => some (l, false)
  | some obj =>
    if update_cache then do
      let freq := obj.md + 1
      let l := if l.max_freq < freq then { l with max_freq := freq } else l
      let (l, old_node) ← unlink l obj.md req.obj_id
      let l := append l req.obj_id { obj with md := freq }
      return (if l.min_freq = obj.md ∧ old_node.n_obj = 0 then { l with min_freq := (next_freq l).getD l.min_freq } else l, true)
    else some (l, true)

variable (s : SrLru)

def loaded_freq (id : ObjId) : Int :=
  match s.H_list.q.lookup id with
  | some obj_other_cache => obj_other_cache.md.freq + 1
  | none => 1

variable (t : Twin)

def CR_LFU_insert (req : Request) : CrLfu :=
  let l := { t.lfu with
    occupied_byte := t.lfu.occupied_byte + (req.obj_size + t.lfu.obj_md_size)
    n_obj := t.lfu.n_obj + 1 }
  let freq := loaded_freq t.lru req.obj_id
  let l := if freq = 1 then { l with min_freq := 1 } else l
  let l := append l req.obj_id { obj_size := req.obj_size, md := freq }
  let l := if l.max_freq < freq then { l with max_freq := freq } else l
  if l.min_freq > freq ∨ l.min_freq = -1 then { l with min_freq := freq } else l

def CR_LFU_to_evict : Option ObjId := (l.freq_map l.min_freq).bind fun node => node.objs.getLast?

def offload (id : ObjId) (freq : Int) : Option SrLru := do
  let obj_other_cache ← s.H_list.q.lookup id
  return { s with H_list := s.H_list.set_md id obj_other_cache { obj_other_cache.md with freq := freq } }

def CR_LFU_evict : Option Twin := do
  let node ← t.lfu.freq_map t.lfu.min_freq
  let id ← node.objs.getLast?
  let obj ← t.lfu.hashtable.lookup id
  let lru ← offload t.lru id obj.md
  let node := { node with objs := node.objs.dropLast, n_obj := node.n_obj - 1 }
  let l := { t.lfu with freq_map := update t.lfu.freq_map t.lfu.min_freq (some node) }
  let l := if node.objs = [] then { l with min_freq := (next_freq l).getD (-1) } else l
  return { lru := lru, lfu := l.cache_remove_obj_base id obj }

/-- `min_freq` stays if no object is left. -/
def CR_LFU_remove (id : ObjId) : Option (Twin × Bool) :=
  match t.lfu.hashtable.lookup id with
  | none => some (t, false)
  | some obj => do
    let lru ← offload t.lru id obj.md
    let (l, _) ← unlink t.lfu obj.md id
    let l := l.cache_remove_obj_base id obj
    let min_freq_node ← l.freq_map l.min_freq
    let l :=
      if min_freq_node.n_obj = 0 then
        let l := { l with freq_map := update l.freq_map l.min_freq (some { min_freq_node with objs := [] }) }
        { l with min_freq := (next_freq l).getD l.min_freq }
      else l
    return ({ lru := lru, lfu := l }, true)

/-! ## SR-LRU -/

def SR_LRU_get_occupied_byte : Int := s.R_list.occupied_byte + s.SR_list.occupied_byte

def demote : Option SrLru := do
  let obj_from_R ← s.R_list.LRU_to_evict
  let R_list ← s.R_list.LRU_evict
  return { s with
    R_list := R_list
    SR_list := s.SR_list.LRU_insert (copy_cache_obj_to_request obj_from_R) { demoted := !obj_from_R.2.md.demoted }
    C_demoted := if obj_from_R.2.md.demoted then s.C_demoted else s.C_demoted + 1 }

/-- By how much a size is adjusted: the quotient is an `int`, and a division by zero fails. -/
def delta (n d : Int) : Option ℚ :=
  if d = 0 then none
  else
    let quot : ℚ := (n / d).bmod (2 ^ 32)
    some (if 1 > quot + 1 / 2 then 1 else quot + 1 / 2)

variable (req : Request)

def move_to_R (obj_SR : FifoObj Md) : Option SrLru :=
  let s := { s with
    R_list := s.R_list.LRU_insert (copy_cache_obj_to_request ⟨req.obj_id, obj_SR⟩) {}
    SR_list := (s.SR_list.LRU_remove req.obj_id).1 }
  whileLoop (fun s => s.R_list.occupied_byte > s.R_list.cache_size) demote s.R_list.q.entries.length s

/-- A demoted object was hit: R grows. It fails if the object has left R since. -/
def grow_R (id : ObjId) : Option SrLru := do
  let obj_R ← s.R_list.q.lookup id
  if obj_R.md.demoted then
    let delta ← delta s.C_new s.C_demoted
    let size := to_double (to_double s.SR_list.cache_size - delta)
    let SR_size := if size > 1 then ⌊size⌋ else 1
    return { s with
      SR_list := { s.SR_list with cache_size := SR_size }
      R_list := { s.R_list.set_md id obj_R { obj_R.md with demoted := false } with
        cache_size := s.H_list.cache_size - SR_size }
      C_demoted := s.C_demoted - 1 }
  else return s

def SR_LRU_find (update_cache : Bool) : Option (SrLru × Bool) := do
  let (R_list, obj_R) := s.R_list.LRU_find req update_cache
  let (SR_list, obj_SR) := s.SR_list.LRU_find req update_cache
  let s := { s with R_list := R_list, SR_list := SR_list }
  let s ←
    if obj_R.isSome && update_cache then some s
    else match obj_SR with
      | some obj_SR => if update_cache then move_to_R s req obj_SR else some s
      | none => some s
  let s ← if update_cache && obj_SR.isSome then grow_R s req.obj_id else some s
  return (s, obj_R.isSome || obj_SR.isSome)

def trim_history : Option SrLru :=
  (whileLoop (fun h => h.occupied_byte ≥ h.cache_size) Fifo.FIFO_evict s.H_list.q.entries.length s.H_list).map fun H_list =>
    { s with H_list := H_list }

def overflow : Option Twin := do
  let obj_to_evict ← t.lru.SR_list.LRU_to_evict
  let H_list := t.lru.H_list.LRU_insert (copy_cache_obj_to_request obj_to_evict) {}
  let (t, _) ← CR_LFU_remove { t with lru := { t.lru with H_list := H_list } } obj_to_evict.1
  let obj ← t.lru.H_list.q.lookup obj_to_evict.1
  let SR_list ← t.lru.SR_list.LRU_evict
  return { t with lru := { t.lru with
    H_list := t.lru.H_list.set_md obj_to_evict.1 obj { obj.md with new_obj := obj_to_evict.2.md.new_obj }
    SR_list := SR_list
    C_new := if obj_to_evict.2.md.new_obj then t.lru.C_new + 1 else t.lru.C_new
    C_demoted := if obj_to_evict.2.md.demoted then t.lru.C_demoted - 1 else t.lru.C_demoted } }

/-- An object that was new when it left returns from the history: SR grows. -/
def grow_SR (id : ObjId) : Option SrLru := do
  let obj ← s.R_list.q.lookup id
  if obj.md.new_obj then
    let delta ← delta s.C_demoted s.C_new
    let limit := SR_LRU_get_occupied_byte s - 1
    let size := to_double (to_double s.SR_list.cache_size + delta)
    let SR_size := if size > to_double limit then limit else ⌊size⌋
    return { s with
      SR_list := { s.SR_list with cache_size := SR_size }
      R_list := { s.R_list.set_md id obj { obj.md with new_obj := false } with
        cache_size := s.H_list.cache_size - SR_size } }
  else return s

def return_to_R (was_new : Bool) : Option SrLru := do
  let s := { s with H_list := (s.H_list.LRU_remove req.obj_id).1 }
  let s ← whileLoop (fun s => s.R_list.occupied_byte + req.obj_size + s.obj_md_size > s.R_list.cache_size) demote
    s.R_list.q.entries.length s
  grow_SR { s with R_list := s.R_list.LRU_insert req { new_obj := was_new } } req.obj_id

/-- An object that the history does not have is new, and comes into SR. -/
def enter : Option SrLru :=
  match s.H_list.q.lookup req.obj_id with
  | some obj => return_to_R s req obj.md.new_obj
  | none => some { s with SR_list := s.SR_list.LRU_insert req { new_obj := true } }

def SR_LRU_insert (req : Request) : Option Twin := do
  let lru ← enter t.lru req
  let t ← whileLoop (fun t : Twin => t.lru.SR_list.occupied_byte > t.lru.SR_list.cache_size) overflow
    lru.SR_list.q.entries.length { t with lru := lru }
  let lru ← trim_history t.lru
  return { t with lru := lru }

def SR_LRU_to_evict : Option (Sigma fun _ : ObjId => FifoObj Md) :=
  (if s.SR_list.occupied_byte = 0 then s.R_list else s.SR_list).LRU_to_evict

def remember (req_local : Request) (md history_md : Md) : SrLru :=
  { s with
    H_list := s.H_list.LRU_insert req_local history_md
    C_new := if md.new_obj then s.C_new + 1 else s.C_new
    C_demoted := if md.demoted then s.C_demoted - 1 else s.C_demoted }

def SR_LRU_evict : Option SrLru := do
  let obj_to_evict ← SR_LRU_to_evict s
  let md := obj_to_evict.2.md
  let s := remember s (copy_cache_obj_to_request obj_to_evict) md { new_obj := md.new_obj, demoted := md.demoted }
  let s ←
    if s.SR_list.occupied_byte > 0 then s.SR_list.LRU_evict.map fun SR_list => { s with SR_list := SR_list }
    else s.R_list.LRU_evict.map fun R_list => { s with R_list := R_list }
  trim_history s

def SR_LRU_remove (id : ObjId) : Option (SrLru × Bool) :=
  match s.R_list.q.lookup id, s.SR_list.q.lookup id with
  | some obj, _ =>
    let s := remember s (copy_cache_obj_to_request ⟨id, obj⟩) obj.md { new_obj := obj.md.new_obj }
    (trim_history { s with R_list := (s.R_list.LRU_remove id).1 }).map fun s => (s, true)
  | none, some obj =>
    let s := remember s (copy_cache_obj_to_request ⟨id, obj⟩) obj.md { new_obj := obj.md.new_obj }
    (trim_history { s with SR_list := (s.SR_list.LRU_remove id).1 }).map fun s => (s, true)
  | none, none => some (s, false)

def SR_LRU_can_insert : Bool :=
  let list := if (s.H_list.q.lookup req.obj_id).isSome then s.R_list else s.SR_list
  !(req.obj_size + s.obj_md_size > list.cache_size)

/-! ## Cacheus -/

/-- The weights and the learning rate, as far as doubles decide about them, and the random numbers. -/
structure Weights (W : Type) where
  /-- with the first random number of the learning rate -/
  init : Nat → W
  /-- `r < w_lru` -/
  picks_lru : Nat → W → Bool
  /-- `update_weight`: whether the object is in `LRU_g` and in `LFU_g` -/
  update_weight : Bool → Bool → W → W
  /-- `update_lr`, with `num_hit` and the next random number, and whether it takes that number -/
  update_lr : Int → Nat → W → W × Bool
  next_rand : Nat → Nat

inductive Candidate
  | lru (id : ObjId)
  | lfu (id : ObjId)
deriving DecidableEq, Repr

def Candidate.obj_id : Candidate → ObjId
  | lru id => id
  | lfu id => id

/-- `cache_t` with `Cacheus_params_t`. -/
structure State (W : Type) where
  cache_size : Int
  obj_md_size : Int
  n_req : Int := 0
  to_evict_candidate : Option Candidate := none
  to_evict_candidate_gen_vtime : Int := -1
  twin : Twin
  LRU_g : Lru Unit
  LFU_g : Lru Unit
  w : W
  num_hit : Int := 0
  /-- the calls of `next_rand` so far -/
  n_rand : Nat := 1

variable {W : Type} (E : Weights W)

def Cacheus_init (cache_size : Int) (consider_obj_metadata : Bool) : State W :=
  let ghost : Lru Unit :=
    { cache_size := ⌊to_double cache_size / 2⌋, obj_md_size := if consider_obj_metadata then 16 else 0 }
  { cache_size := cache_size
    obj_md_size := if consider_obj_metadata then 40 else 0
    twin := { lru := SR_LRU_init cache_size consider_obj_metadata, lfu := CR_LFU_init consider_obj_metadata }
    LRU_g := ghost
    LFU_g := ghost
    w := E.init (E.next_rand 0 % 1000) }

def check_and_update_history (s : State W) (id : ObjId) : State W :=
  { s with
    w := E.update_weight (s.LRU_g.q.lookup id).isSome (s.LFU_g.q.lookup id).isSome s.w
    LRU_g := (s.LRU_g.LRU_remove id).1
    LFU_g := (s.LFU_g.LRU_remove id).1 }

def Cacheus_find (s : State W) (req : Request) (update_cache : Bool) : Option (State W × Bool) := do
  let (lru, hit_lru) ← SR_LRU_find s.twin.lru req update_cache
  let (lfu, _) ← CR_LFU_find s.twin.lfu req update_cache
  let s := { s with twin := { lru := lru, lfu := lfu } }
  if !update_cache then return (s, hit_lru)
  else if !hit_lru then return (check_and_update_history E s req.obj_id, false)
  else return ({ s with num_hit := s.num_hit + 1 }, true)

/-- CR-LFU comes first, since it may load a frequency from the history. -/
def Cacheus_insert (s : State W) (req : Request) : Option (State W) :=
  if SR_LRU_can_insert s.twin.lru req then do
    let twin ← SR_LRU_insert { s.twin with lfu := CR_LFU_insert s.twin req } req
    return { s with twin := twin }
  else some s

def Cacheus_to_evict (s : State W) : State W :=
  { s with
    to_evict_candidate_gen_vtime := s.n_req
    n_rand := s.n_rand + 1
    to_evict_candidate :=
      if E.picks_lru (E.next_rand s.n_rand % 100) s.w then (SR_LRU_to_evict s.twin.lru).map fun obj => .lru obj.1
      else (CR_LFU_to_evict s.twin.lfu).map .lfu }

/-- The victim goes from both experts, first from the one that names it if that is SR-LRU. -/
def evict_from_experts (s : State W) (lru_to_evict : Sigma fun _ : ObjId => FifoObj Md) (lfu_to_evict : ObjId)
    (obj_to_evict : Candidate) : Option (State W) :=
  if lru_to_evict.1 = lfu_to_evict then do
    let lru ← SR_LRU_evict s.twin.lru
    let twin ← CR_LFU_evict { s.twin with lru := lru }
    return { s with twin := twin }
  else if obj_to_evict = .lru lru_to_evict.1 then do
    let lru ← SR_LRU_evict s.twin.lru
    let (twin, _) ← CR_LFU_remove { s.twin with lru := lru } lru_to_evict.1
    let (LRU_g, _) ← s.LRU_g.LRU_get (copy_cache_obj_to_request lru_to_evict)
    return { s with twin := twin, LRU_g := LRU_g }
  else do
    -- `obj_to_evict` is an object of CR-LFU
    let obj ← s.twin.lfu.hashtable.lookup obj_to_evict.obj_id
    let (lru, _) ← SR_LRU_remove s.twin.lru obj_to_evict.obj_id
    let twin ← CR_LFU_evict { s.twin with lru := lru }
    let (LFU_g, _) ← s.LFU_g.LRU_get (copy_cache_obj_to_request ⟨obj_to_evict.obj_id, obj⟩)
    return { s with twin := twin, LFU_g := LFU_g }

def Cacheus_evict (s : State W) : Option (State W) := do
  let lru_to_evict ← SR_LRU_to_evict s.twin.lru
  let lfu_to_evict ← CR_LFU_to_evict s.twin.lfu
  let s := if s.to_evict_candidate_gen_vtime = s.n_req then s else Cacheus_to_evict E s
  let obj_to_evict ← s.to_evict_candidate
  let s ← evict_from_experts s lru_to_evict lfu_to_evict obj_to_evict
  return { s with to_evict_candidate_gen_vtime := -1 }

def Cacheus_remove (s : State W) (id : ObjId) : Option (State W × Bool) := do
  let (lru, lru_removed) ← SR_LRU_remove s.twin.lru id
  let (twin, _) ← CR_LFU_remove { s.twin with lru := lru } id
  return ({ s with twin := twin }, lru_removed)

def update_lr (s : State W) : State W :=
  let (w, drawn) := E.update_lr s.num_hit (E.next_rand s.n_rand) s.w
  { s with w := w, n_rand := if drawn then s.n_rand + 1 else s.n_rand, num_hit := 0 }

def ops : CacheOps (State W) where
  count_req s := { s with n_req := s.n_req + 1 }
  find s req := Cacheus_find E s req true
  can_insert s req := some (s, !(req.obj_size + s.obj_md_size > s.cache_size))
  get_occupied_byte s := SR_LRU_get_occupied_byte s.twin.lru
  obj_md_size s := s.obj_md_size
  cache_size s := s.cache_size
  evict s _ := Cacheus_evict E s
  insert s req := Cacheus_insert s req

def Cacheus_get (s : State W) (req : Request) : Option (State W × Bool) := do
  let (s, ret) ← (ops E).cache_get_base (fun s => s.twin.lfu.hashtable.entries.length) s req
  if s.cache_size = 0 then none
  else if s.n_req % s.cache_size = 0 then return (update_lr E s, ret)
  else return (s, ret)

inductive Call where
  | get (req : Request)
  | evict
  | remove (id : ObjId)

def call (s : State W) : Call → Option (State W)
  | .get req => (Cacheus_get E s req).map (·.1)
  | .evict => Cacheus_evict E s
  | .remove id => (Cacheus_remove s id).map (·.1)

end CacheSim.Cacheus
