import CacheSim.Cache
import CacheSim.Lib.Double

/-!
# ClockPro (`ClockPro.c`)

Hot, cold and test objects on one clock with three hands. Objects live on a heap and know their
neighbours by pointer; `none` is a pointer that is null or dead, and a call that follows it.
-/

namespace CacheSim.ClockPro

open Lib Function

abbrev Ptr := Nat

/-- `clockpro_status_e` -/
inductive Status where
  | CLOCKPRO_TEST | CLOCKPRO_COLD | CLOCKPRO_HOT
deriving DecidableEq, Repr

/-- `cache_obj_t` with its `queue` and `ClockPro_obj_metadata_t` -/
structure Obj where
  obj_id : ObjId
  obj_size : Int
  referenced : Bool := false
  status : Status := .CLOCKPRO_TEST
  next : Option Ptr := none
  prev : Option Ptr := none
deriving DecidableEq, Repr

/-- `cache_t` with `ClockPro_params_t`. `obj_md_size` is 0. -/
structure State where
  cache_size : Int
  n_req : Int := 0
  occupied_byte : Int := 0
  n_obj : Int := 0
  heap : Ptr → Option Obj := fun _ => none
  /-- the address that the next allocation returns -/
  fresh : Ptr := 0
  hashtable : ObjId → Option Ptr := fun _ => none
  ht_test : ObjId → Option Ptr := fun _ => none
  hand_hot : Option Ptr := none
  hand_cold : Option Ptr := none
  hand_test : Option Ptr := none
  mem_cold_max : Int
  mem_cold : Int := 0
  mem_test : Int := 0
  mem_hot : Int := 0
  init_ref : Bool := false

/-- `mem_cold_max` is what `init-ratio-cold` makes of the size, a product of doubles; the ratio 1 by default. -/
def ClockPro_init (cache_size : Nat) (mem_cold_max : Int := round53 cache_size) (init_ref : Bool := false) : State where
  cache_size := cache_size
  mem_cold_max := mem_cold_max
  init_ref := init_ref

/-! ## Pointers -/

section

variable (s : State)

def write (p : Ptr) (f : Obj → Obj) : Option State := do
  let o ← s.heap p
  return { s with heap := update s.heap p (some (f o)) }

def write_if (p : Option Ptr) (f : Obj → Obj) : Option State :=
  match p with
  | none => some s
  | some p => write s p f

def set_next (p : Ptr) (q : Option Ptr) : Option State := write s p ({ · with next := q })

def set_prev (p : Ptr) (q : Option Ptr) : Option State := write s p ({ · with prev := q })

def next (p : Ptr) : Option Ptr := do (← s.heap p).next

def prev (p : Ptr) : Option Ptr := do (← s.heap p).prev

/-- The head and the tail come back as the call leaves them. -/
def remove_obj_from_list (head tail : Option Ptr) (p : Ptr) : Option (State × Option Ptr × Option Ptr) := do
  let (s, head) ← if head = some p then do
      let o ← s.heap p
      let s ← write_if s o.next ({ · with prev := none })
      pure (s, o.next)
    else pure (s, head)
  let (s, tail) ← if tail = some p then do
      let o ← s.heap p
      let s ← write_if s o.prev ({ · with next := none })
      pure (s, o.prev)
    else pure (s, tail)
  let o ← s.heap p
  let s ← write_if s o.prev ({ · with next := o.next })
  let o ← s.heap p
  let s ← write_if s o.next ({ · with prev := o.prev })
  let s ← write s p ({ · with prev := none, next := none })
  return (s, head, tail)

def move_obj_to_tail (head tail : Option Ptr) (p : Ptr) : Option (State × Option Ptr × Option Ptr) :=
  if head = tail then some (s, head, tail)
  else if head = some p then do
    let o ← s.heap p
    let q ← o.next
    let s ← set_prev s q none
    let s ← set_next s (← tail) (some p)
    let s ← write s p ({ · with next := none, prev := tail })
    return (s, some q, some p)
  else if tail = some p then some (s, head, tail)
  else do
    let o ← s.heap p
    let s ← set_next s (← o.prev) o.next
    let s ← set_prev s (← o.next) o.prev
    let s ← set_next s (← tail) (some p)
    let s ← write s p ({ · with next := none, prev := tail })
    return (s, head, some p)

/-- `hashtable_insert` into either table; the caller enters the address. -/
def alloc (o : Obj) : State × Ptr := ({ s with heap := update s.heap s.fresh (some o), fresh := s.fresh + 1 }, s.fresh)

def free (p : Ptr) : State := { s with heap := update s.heap p none }

def cache_insert_base (req : Request) : State × Ptr :=
  let (s, p) := alloc s { obj_id := req.obj_id, obj_size := req.obj_size }
  ({ s with
    hashtable := update s.hashtable req.obj_id (some p)
    occupied_byte := s.occupied_byte + req.obj_size
    n_obj := s.n_obj + 1 }, p)

def cache_evict_base (p : Ptr) : Option State := do
  let o ← s.heap p
  guard (s.hashtable o.obj_id = some p)
  return { free s p with
    hashtable := update s.hashtable o.obj_id none
    occupied_byte := s.occupied_byte - o.obj_size
    n_obj := s.n_obj - 1 }

def ht_test_delete (p : Ptr) : Option State := do
  let o ← s.heap p
  guard (s.ht_test o.obj_id = some p)
  return { free s p with ht_test := update s.ht_test o.obj_id none }

def retarget (hand : Option Ptr) (p : Ptr) (q : Option Ptr) : Option Ptr := if hand = some p then q else hand

end

/-! ## The hands

The four functions call one another. Each body takes those that it calls as parameters, and `fuel` bounds
its loops. A loop that finds its object freed ends, and the call fails at the next use of it. -/

def run_test_body (ClockPro_run_cold : State → Option State) (fuel : Nat) (s : State) : Option State := do
  let p ← s.hand_test
  let obj ← s.heap p
  if obj.status ≠ .CLOCKPRO_TEST then
    return { s with hand_test := obj.next }
  let s := { s with
    mem_test := s.mem_test - obj.obj_size
    mem_cold_max := if s.mem_cold_max > obj.obj_size then s.mem_cold_max - obj.obj_size else 0
    hand_hot := retarget s.hand_hot p obj.next
    hand_cold := retarget s.hand_cold p obj.next }
  let (s, hand_test, _) ← remove_obj_from_list s s.hand_test obj.prev p
  let s ← ht_test_delete { s with hand_test := hand_test } p
  whileLoop (fun s => s.mem_cold > s.mem_cold_max) ClockPro_run_cold fuel s

variable (s : State)

/-- The cold object becomes a test one: a new object takes its place on the clock. -/
def demote (p : Ptr) : Option State := do
  let obj ← s.heap p
  let (s, demoted) := alloc s { obj_id := obj.obj_id, obj_size := obj.obj_size, referenced := s.init_ref }
  let s := { s with
    ht_test := update s.ht_test obj.obj_id (some demoted)
    mem_test := s.mem_test + obj.obj_size }
  let hand_cold ← s.hand_cold
  let hand ← s.heap hand_cold
  let s ← write s demoted ({ · with next := hand.next, prev := hand.prev })
  let s ← set_prev s (← next s hand_cold) (some demoted)
  let s ← set_next s (← prev s hand_cold) (some demoted)
  let s := { s with
    hand_hot := retarget s.hand_hot p (some demoted)
    hand_test := retarget s.hand_test p (some demoted) }
  let s ← cache_evict_base s p
  return { s with hand_cold := next s demoted }

def run_cold_body (ClockPro_run_test : State → Option State) (ClockPro_promote : Ptr → State → Option State)
    (fuel : Nat) (s : State) : Option State := do
  let p ← s.hand_cold
  let obj ← s.heap p
  if obj.status ≠ .CLOCKPRO_COLD then
    return { s with hand_cold := obj.next }
  if obj.referenced then
    ClockPro_promote p s
  else
    let s ← whileLoop (fun s => (s.heap p).any fun obj => s.mem_test + obj.obj_size > s.cache_size) ClockPro_run_test fuel
      { s with mem_cold := s.mem_cold - obj.obj_size }
    demote s p

def run_hot_body (ClockPro_run_cold : State → Option State) (fuel : Nat) (s : State) : Option State := do
  let p ← s.hand_hot
  let obj ← s.heap p
  if obj.status ≠ .CLOCKPRO_HOT then
    return { s with hand_hot := obj.next }
  if obj.referenced then
    let s ← write s p ({ · with referenced := false })
    return { s with hand_hot := obj.next }
  let s ← whileLoop (fun s => (s.heap p).any fun obj => s.mem_cold + obj.obj_size > s.mem_cold_max) ClockPro_run_cold fuel s
  let s ← write s p ({ · with status := .CLOCKPRO_COLD, referenced := s.init_ref })
  let s := { s with
    hand_cold := retarget s.hand_cold p (next s p)
    hand_test := retarget s.hand_test p (next s p) }
  let hand_hot ← s.heap (← s.hand_hot)
  let (s, _) ← move_obj_to_tail s hand_hot.next s.hand_hot p
  let obj ← s.heap p
  return { s with
    hand_hot := obj.next
    mem_hot := s.mem_hot - obj.obj_size
    mem_cold := s.mem_cold + obj.obj_size }

/-- A test object that is hit again makes room for cold ones. -/
def raise_cold_max (obj : Obj) : State :=
  if obj.status = .CLOCKPRO_TEST then
    { s with mem_cold_max :=
        if s.mem_cold_max + obj.obj_size > s.cache_size then s.cache_size else s.mem_cold_max + obj.obj_size }
  else s

def place_hot (p : Ptr) : Option State := do
  let hand_hot ← s.heap (← s.hand_hot)
  let (s, hand_hot_next, _) ← move_obj_to_tail s hand_hot.next s.hand_hot p
  let s ← set_next s p hand_hot_next
  let s ← set_prev s (← hand_hot_next) (some p)
  return { s with hand_hot := next s p }

def promote_body (ClockPro_run_hot : State → Option State) (fuel : Nat) (p : Ptr) (s : State) : Option State := do
  let obj ← s.heap p
  let s := raise_cold_max s obj
  let s := { s with
    hand_cold := retarget s.hand_cold p obj.next
    hand_test := retarget s.hand_test p obj.next }
  let s ← whileLoop
    (fun s => ((s.heap p).any fun obj => s.mem_hot + obj.obj_size > s.cache_size - s.mem_cold_max) && s.mem_hot > 0)
    ClockPro_run_hot fuel s
  let obj ← s.heap p
  let old_status := obj.status
  let s ← write s p ({ · with status := .CLOCKPRO_HOT, referenced := s.init_ref })
  let s ← place_hot s p
  return { s with
    mem_cold := if old_status = .CLOCKPRO_COLD then s.mem_cold - obj.obj_size else s.mem_cold
    mem_test := if old_status = .CLOCKPRO_TEST then s.mem_test - obj.obj_size else s.mem_test
    mem_hot := s.mem_hot + obj.obj_size }

mutual

def ClockPro_run_test : Nat → State → Option State
  | 0, _ => none
  | n + 1, s => run_test_body (ClockPro_run_cold n) n s

def ClockPro_run_cold : Nat → State → Option State
  | 0, _ => none
  | n + 1, s => run_cold_body (ClockPro_run_test n) (ClockPro_promote n) n s

def ClockPro_run_hot : Nat → State → Option State
  | 0, _ => none
  | n + 1, s => run_hot_body (ClockPro_run_cold n) n s

def ClockPro_promote : Nat → Ptr → State → Option State
  | 0, _, _ => none
  | n + 1, p, s => promote_body (ClockPro_run_hot n) n p s

end

def enter_clock (p : Ptr) : Option State :=
  match s.hand_hot with
  | none => do
    let s ← write s p ({ · with next := some p, prev := some p })
    return { s with hand_hot := some p, hand_cold := some p, hand_test := some p }
  | some h => do
    let hand_hot_prev ← prev s h
    let s ← set_prev s h (some p)
    let s ← write s p ({ · with next := some h, prev := some hand_hot_prev })
    set_next s hand_hot_prev (some p)

def take_slot (p : Ptr) (test : Ptr) : Option State := do
  let test_obj ← s.heap test
  let s ← if test_obj.next = some test then write s p ({ · with next := some p, prev := some p })
    else do
      let s ← write s p ({ · with next := test_obj.next, prev := test_obj.prev })
      let s ← set_prev s (← test_obj.next) (some p)
      set_next s (← test_obj.prev) (some p)
  ht_test_delete { s with
    hand_hot := retarget s.hand_hot test (some p)
    hand_cold := retarget s.hand_cold test (some p)
    hand_test := retarget s.hand_test test (some p) } test

def ClockPro_insert (fuel : Nat) (s : State) (req : Request) : Option State :=
  match s.ht_test req.obj_id with
  | some test => do
    let test_obj ← s.heap test
    let (s, p) := cache_insert_base s req
    let s ← write s p ({ · with referenced := test_obj.referenced, status := .CLOCKPRO_TEST })
    let s ← take_slot s p test
    ClockPro_promote fuel p s
  | none => do
    let (s, p) := cache_insert_base s req
    let s ← write s p ({ · with referenced := s.init_ref, status := .CLOCKPRO_COLD })
    let s ← enter_clock s p
    return { s with mem_cold := s.mem_cold + req.obj_size }

/-! ## Eviction -/

/-- A lap of the cold hand, or a part of it that frees an object. The flag is `lapped`. -/
def cold_lap (fuel : Nat) (occupied_before : Int) (s : State) : Option (State × Bool) :=
  let start := s.hand_cold
  whileLoop (fun w => w.1.occupied_byte == occupied_before && !w.2)
    (fun w => (ClockPro_run_cold fuel w.1).map fun s => (s, s.hand_cold == start)) fuel (s, false)

def hot_lap (fuel : Nat) (occupied_before : Int) (s : State) : Option (State × Bool) :=
  let hot_start := s.hand_hot
  let hot_before := s.mem_hot
  whileLoop (fun w => w.1.mem_hot == hot_before && w.1.occupied_byte == occupied_before && !w.2)
    (fun w => (ClockPro_run_hot fuel w.1).map fun s => (s, s.hand_hot == hot_start)) fuel (s, false)

def evict_round (fuel : Nat) (occupied_before : Int) (w : State × Bool) : Option (State × Bool) := do
  let (s, _) ← cold_lap fuel occupied_before w.1
  if s.occupied_byte ≠ occupied_before then
    return (s, true)
  if s.mem_hot ≤ 0 then
    return (s, true)
  let hot_before := s.mem_hot
  let (s, _) ← hot_lap fuel occupied_before s
  return (s, s.mem_hot == hot_before && s.occupied_byte == occupied_before)

def ClockPro_evict (fuel : Nat) (s : State) : Option State :=
  if s.hand_cold = none then some s
  else do
    let (t, _) ← whileLoop (fun w => w.1.occupied_byte == s.occupied_byte && !w.2) (evict_round fuel s.occupied_byte)
      fuel (s, false)
    return t

def ClockPro_find (req : Request) : Option (State × Bool) :=
  match s.hashtable req.obj_id with
  | none => some (s, false)
  | some p => (write s p ({ · with referenced := true })).map (·, true)

def ClockPro_can_insert (req : Request) : Bool :=
  !(req.obj_size > s.cache_size) && decide (s.mem_cold + req.obj_size ≤ s.mem_cold_max)

def ops (fuel : Nat) : CacheOps State where
  count_req s := { s with n_req := s.n_req + 1 }
  find := ClockPro_find
  can_insert s req := some (s, ClockPro_can_insert s req)
  get_occupied_byte s := s.occupied_byte
  obj_md_size _ := 0
  cache_size s := s.cache_size
  evict s _ := ClockPro_evict fuel s
  insert := ClockPro_insert fuel

/-- `fuel` bounds every loop and the depth of the calls: the hands may turn for ever. -/
def ClockPro_get (fuel : Nat) (s : State) (req : Request) : Option (State × Bool) :=
  (ops fuel).cache_get_base (fun _ => fuel) s req

end CacheSim.ClockPro
