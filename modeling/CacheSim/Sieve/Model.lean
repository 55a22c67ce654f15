import CacheSim.Pin

/-!
# Sieve (`Sieve.c`)

A FIFO queue with a hand that moves from the tail to the head and takes the first object that was
not read since the hand passed it. Pinned objects are passed over, at most `n_obj` times.
-/

namespace CacheSim.Sieve

open Lib

/-- `cache_t` with `Sieve_params_t`. The metadata of an object is its `sieve.freq`. -/
structure State where
  fifo : Fifo Nat
  pointer : Option ObjId := none

def Sieve_init (cache_size : Int) (consider_obj_metadata : Bool) : State where
  fifo := { cache_size := cache_size, obj_md_size := if consider_obj_metadata then 1 else 0 }

def Sieve_find (s : State) (req : Request) : State × Bool :=
  match s.fifo.q.lookup req.obj_id with
  | none => (s, false)
  | some obj => ({ s with fifo := s.fifo.set_md req.obj_id obj 1 }, true)

def Sieve_insert (s : State) (req : Request) : State := { s with fifo := s.fifo.FIFO_insert req 0 }

def prev (queue : List ObjId) (id : ObjId) : Option ObjId := (queue.takeWhile (· ≠ id)).getLast?

/-- The variables of the loop of `Sieve_evict`; `stop` is set by its `break`. -/
structure Hand where
  q : Table ObjId (FifoObj Nat)
  obj : ObjId
  budget : Int
  stop : Bool := false

def Hand.move (w : Hand) : Option Hand := do
  let obj ← (prev w.q.keys w.obj).or w.q.keys.getLast?
  return { w with obj := obj }

def evict_step (pin : Pin) (w : Hand) : Option Hand := do
  let obj ← w.q.lookup w.obj
  if pin.is_pinned w.obj then
    let w := { w with budget := w.budget - 1 }
    if w.budget ≤ 0 then return { w with stop := true } else w.move
  else if obj.md > 0 then
    Hand.move { w with q := w.q.replace w.obj { obj with md := obj.md - 1 } }
  else
    return { w with stop := true }

def walk (pin : Pin) (w : Hand) : Option Hand :=
  whileLoop (fun w => !w.stop) (evict_step pin) (w.budget.toNat + (w.q.entries.map fun e => e.2.md).sum + 1) w

def Sieve_evict (pin : Pin) (s : State) : Option State := do
  let obj ← s.pointer.or s.fifo.q.keys.getLast?
  let w ← walk pin { q := s.fifo.q, obj := obj, budget := s.fifo.n_obj + 1 }
  let victim ← w.q.lookup w.obj
  return { pointer := prev w.q.keys w.obj, fifo := { s.fifo with q := w.q }.cache_remove_obj_base w.obj victim }

def Sieve_remove (s : State) (id : ObjId) : State × Bool :=
  match s.fifo.q.lookup id with
  | none => (s, false)
  | some obj_to_remove =>
    ({ pointer := if s.pointer = some id then prev s.fifo.q.keys id else s.pointer
       fifo := s.fifo.cache_remove_obj_base id obj_to_remove }, true)

def ops (pin : Pin) : CacheOps State where
  count_req s := { s with fifo := { s.fifo with n_req := s.fifo.n_req + 1 } }
  find s req := some (Sieve_find s req)
  can_insert s req := some (s, !(req.obj_size + s.fifo.obj_md_size > s.fifo.cache_size))
  get_occupied_byte s := s.fifo.occupied_byte
  obj_md_size s := s.fifo.obj_md_size
  cache_size s := s.fifo.cache_size
  evict s _ := Sieve_evict pin s
  insert s req := some (Sieve_insert s req)

def Sieve_get (pin : Pin) (s : State) (req : Request) : Option (State × Bool) :=
  (ops pin).cache_get_base (fun s => s.fifo.q.entries.length) s req

def call : State → Pin.Call → Option State := Pin.call Sieve_get Sieve_evict Sieve_remove

end CacheSim.Sieve
