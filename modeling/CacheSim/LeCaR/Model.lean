import CacheSim.Fifo

/-!
# LeCaR (`LeCaR.c`)

Two experts watch one cache: an LRU list, and an LFU with a list for each frequency. The expert that
is drawn names the victim, which stays in the hash table as a ghost and on the history of that
expert.
-/

namespace CacheSim.LeCaR

open Lib Function

/-- A signed bit-field of `w` bits. -/
def bit_field (w : Nat) (n : Int) : Int := n.bmod (2 ^ w)

/-- An object or a ghost, with `LeCaR_obj_metadata_t`. -/
structure Obj where
  obj_size : Int
  freq : Int
  is_ghost : Bool := false
  /-- 1: LRU, 2: LFU, -1: both -/
  evict_expert : Int := 0
  eviction_vtime : Int := 0
deriving DecidableEq, Repr

/-- `freq_node_t`; the list is from `first_obj` to `last_obj`. -/
structure FreqNode where
  objs : List ObjId := []
  n_obj : Int := 0

/-- An eviction history, from its head. -/
structure History where
  objs : List ObjId := []
  occupied_byte : Int := 0

/-- The weights of the experts, as far as doubles decide about them, and the random numbers. -/
structure Experts (W : Type) where
  init : W
  /-- `r < w_lru` -/
  picks_lru : Nat → W → Bool
  /-- `update_weight`, with the weight of the LRU or of the LFU first -/
  update_lru : Int → W → W
  update_lfu : Int → W → W
  next_rand : Nat → Nat

/-- `cache_t` with `LeCaR_params_t`. -/
structure State (W : Type) where
  cache_size : Int
  obj_md_size : Int
  n_req : Int := 0
  occupied_byte : Int := 0
  n_obj : Int := 0
  to_evict_candidate : Option ObjId := none
  to_evict_candidate_gen_vtime : Int := -1
  hashtable : Table ObjId Obj := ∅
  /-- from `q_head` to `q_tail` -/
  q : List ObjId := []
  freq_map : Int → Option FreqNode := update (fun _ => none) 1 (some {})
  min_freq : Int := 1
  max_freq : Int := 1
  ghost_lru : History := {}
  ghost_lfu : History := {}
  w : W
  /-- the calls of `next_rand` so far -/
  n_rand : Nat := 0

variable {W : Type} (E : Experts W)

def LeCaR_init (cache_size : Nat) (consider_obj_metadata : Bool) : State W where
  cache_size := cache_size
  obj_md_size := if consider_obj_metadata then 40 else 0
  w := E.init

variable (s : State W)

def scan : List Int := (List.range (s.max_freq - s.min_freq).toNat).map fun k : Nat => s.min_freq + 1 + k

def has_objs (freq : Int) : Bool := (s.freq_map freq).any fun node => node.n_obj > 0

def update_LFU_min_freq : State W :=
  match (scan s).find? (has_objs s) with
  | some freq => { s with min_freq := freq }
  | none => s

/-- `none` for a null pointer. `freq_one_node` is the node of frequency 1 in `freq_map`. -/
def get_min_freq_node : Option FreqNode := s.freq_map s.min_freq

def remove_obj_from_freq_node (id : ObjId) (obj : Obj) : Option (State W) := do
  let freq_node ← s.freq_map obj.freq
  let freq_node := { freq_node with objs := freq_node.objs.erase id, n_obj := freq_node.n_obj - 1 }
  let s := { s with freq_map := update s.freq_map obj.freq (some freq_node) }
  return if obj.freq = s.min_freq ∧ freq_node.n_obj = 0 then update_LFU_min_freq s else s

def insert_obj_info_freq_node (id : ObjId) (obj : Obj) : State W :=
  let new_node := (s.freq_map obj.freq).getD {}
  { s with
    freq_map := update s.freq_map obj.freq
      (some { new_node with objs := new_node.objs ++ [id], n_obj := new_node.n_obj + 1 })
    hashtable := s.hashtable.insert id obj }

def History.remove (h : History) (id : ObjId) (bytes : Int) : History :=
  { objs := h.objs.erase id, occupied_byte := h.occupied_byte - bytes }

def find_ghost (id : ObjId) (obj : Obj) : Option (State W) :=
  let t := s.n_req - obj.eviction_vtime
  let bytes := obj.obj_size + s.obj_md_size
  let s := { s with hashtable := s.hashtable.erase id }
  if obj.evict_expert = 1 then
    some { s with w := E.update_lru t s.w, ghost_lru := s.ghost_lru.remove id bytes }
  else if obj.evict_expert = 2 then
    some { s with w := E.update_lfu t s.w, ghost_lfu := s.ghost_lfu.remove id bytes }
  else if obj.evict_expert = -1 then
    some s
  else
    none

def raise_freq (id : ObjId) (obj : Obj) : State W :=
  let s := if s.max_freq < obj.freq then { s with max_freq := obj.freq } else s
  let s := insert_obj_info_freq_node s id obj
  let s := if s.n_obj = 1 then update_LFU_min_freq s else s
  if obj.freq < s.min_freq then { s with min_freq := obj.freq } else s

def find_resident (id : ObjId) (obj : Obj) : Option (State W) := do
  let s ← remove_obj_from_freq_node { s with q := id :: s.q.erase id } id obj
  return raise_freq s id { obj with freq := bit_field 24 (obj.freq + 1) }

def LeCaR_find (req : Request) : Option (State W × Bool) :=
  match s.hashtable.lookup req.obj_id with
  | none => some (s, false)
  | some obj =>
    if obj.is_ghost then (find_ghost E s req.obj_id obj).map fun s => (s, false)
    else (find_resident s req.obj_id obj).map fun s => (s, true)

def LeCaR_insert (req : Request) : State W :=
  insert_obj_info_freq_node { s with
    occupied_byte := s.occupied_byte + (req.obj_size + s.obj_md_size)
    n_obj := s.n_obj + 1
    q := req.obj_id :: s.q
    min_freq := 1 } req.obj_id { obj_size := req.obj_size, freq := 1 }

/-! ## Eviction -/

/-- `next_rand() % 100` against the weight of the LRU. -/
def draw : Bool × State W :=
  (E.picks_lru (E.next_rand s.n_rand % 100) s.w, { s with n_rand := s.n_rand + 1 })

/-- The candidate, `none` for a null pointer. It fails if there is no node of frequency `min_freq`. -/
def LeCaR_to_evict : Option (State W × Option ObjId) := do
  let s := { s with to_evict_candidate_gen_vtime := s.n_req }
  let (lru, s) := draw E s
  let candidate ← if lru then some s.q.getLast? else (get_min_freq_node s).map fun node => node.objs.head?
  return ({ s with to_evict_candidate := candidate }, candidate)

def choose : Option (State W × ObjId × Int) := do
  let node ← get_min_freq_node s
  let lru_candidate := s.q.getLast?
  let lfu_candidate := node.objs.head?
  let s := { s with to_evict_candidate := lru_candidate }
  if s.to_evict_candidate_gen_vtime = s.n_req then
    let id ← s.to_evict_candidate
    let s := { s with to_evict_candidate_gen_vtime := -1 }
    return (s, id, if lru_candidate = lfu_candidate then -1 else if some id = lru_candidate then 1 else 2)
  else if lru_candidate = lfu_candidate then
    let id ← lru_candidate
    return (s, id, -1)
  else
    let (lru, s) := draw E s
    if lru then lru_candidate.map fun id => (s, id, 1) else lfu_candidate.map fun id => (s, id, 2)

def trim (limit obj_md_size : Int) (h : History) (hashtable : Table ObjId Obj) : Option (History × Table ObjId Obj) :=
  whileLoop (fun w => w.1.occupied_byte > limit)
    (fun w => do
      let ghost_to_evict ← w.1.objs.getLast?
      let obj ← w.2.lookup ghost_to_evict
      return (w.1.remove ghost_to_evict (obj.obj_size + obj_md_size), w.2.erase ghost_to_evict))
    h.objs.length (h, hashtable)

def remember (h : History) (id : ObjId) (obj : Obj) : Option (History × Table ObjId Obj) :=
  trim (s.cache_size / 2) s.obj_md_size
    { objs := id :: h.objs, occupied_byte := h.occupied_byte + (obj.obj_size + s.obj_md_size) } s.hashtable

def retire (id : ObjId) (evict_expert : Int) : Option (State W) := do
  let obj ← s.hashtable.lookup id
  let obj := { obj with is_ghost := true, evict_expert := evict_expert, eviction_vtime := bit_field 40 s.n_req }
  let s ← remove_obj_from_freq_node { s with q := s.q.erase id } id obj
  let s := { s with
    hashtable := s.hashtable.insert id obj
    occupied_byte := s.occupied_byte - (obj.obj_size + s.obj_md_size)
    n_obj := s.n_obj - 1 }
  if evict_expert = 1 then
    let (ghost_lru, hashtable) ← remember s s.ghost_lru id obj
    return { s with ghost_lru := ghost_lru, hashtable := hashtable }
  else if evict_expert = 2 then
    let (ghost_lfu, hashtable) ← remember s s.ghost_lfu id obj
    return { s with ghost_lfu := ghost_lfu, hashtable := hashtable }
  else
    return s

def LeCaR_evict : Option (State W) := do
  let (s, id, evict_expert) ← choose E s
  retire s id evict_expert

/-- `none` for a ghost: its links are those of a history, and the code takes them for those of the
LRU list, so that the history is left with a pointer to freed memory or a wrong count. -/
def LeCaR_remove (id : ObjId) : Option (State W × Bool) :=
  match s.hashtable.lookup id with
  | none => some (s, false)
  | some obj =>
    if obj.is_ghost then none
    else do
      let s ← remove_obj_from_freq_node { s with q := s.q.erase id } id obj
      return ({ s with
        hashtable := s.hashtable.erase id
        occupied_byte := s.occupied_byte - (obj.obj_size + s.obj_md_size)
        n_obj := s.n_obj - 1 }, true)

def ops : CacheOps (State W) where
  count_req s := { s with n_req := s.n_req + 1 }
  find s req := LeCaR_find E s req
  can_insert s req := some (s, !(req.obj_size + s.obj_md_size > s.cache_size))
  get_occupied_byte s := s.occupied_byte
  obj_md_size s := s.obj_md_size
  cache_size s := s.cache_size
  evict s _ := LeCaR_evict E s
  insert s req := some (LeCaR_insert s req)

def LeCaR_get (req : Request) : Option (State W × Bool) :=
  (ops E).cache_get_base (fun s => s.q.length) s req

end CacheSim.LeCaR
