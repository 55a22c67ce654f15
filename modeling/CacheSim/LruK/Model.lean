import CacheSim.Lru
import CacheSim.Lib.KeyedSet
import CacheSim.Lib.NodeLists
import Mathlib.Data.Prod.Lex

/-!
# LRU-K (`LRU_K.cpp`)

Objects with fewer than `k` accesses stand in a FIFO list and go first. The others are in a set, ordered by the `k`-th last access.
-/

namespace CacheSim.LruK

open Lib List Function

local instance (priority := high) preorder_int : Preorder Int := Int.instLinearOrder.toPreorder

/-- `cache_t` with `eviction::LRU_K`. The nodes of `fifo_queue` and the iterators of `fifo_map` are in `fifo`. -/
structure State where
  cache : Fifo Unit
  k : Nat
  fifo : NodeLists Unit ObjId := {}
  pq : List (Int × ObjId) := []
  pq_map : ObjId → Option Int := fun _ => none
  history : ObjId → Option (List Int) := fun _ => none

def LRU_K_init (cache_size : Nat) (consider_obj_metadata : Bool) (k : Nat) : State where
  cache := { cache_size := cache_size, obj_md_size := if consider_obj_metadata then 8 * k + 16 else 0 }
  k := k

/-- `hist.push_back(vtime)`, and `hist.pop_front()` if there are more than `k` -/
def push (k : Nat) (hist : List Int) (vtime : Int) : List Int :=
  let hist := hist ++ [vtime]
  if hist.length > k then hist.tail else hist

variable (s : State)

/-- With `update_cache` true. The maps give an empty history and the time 0 for what they do not have. -/
def LRU_K_find (req : Request) : State × Bool :=
  match s.cache.q.lookup req.obj_id with
  | none => (s, false)
  | some _ =>
    let hist := push s.k ((s.history req.obj_id).getD []) s.cache.n_req
    let s := { s with history := update s.history req.obj_id (some hist) }
    let kth_vtime := hist.headD 0
    let in_fifo := (s.fifo.slot req.obj_id).isSome
    if in_fifo && hist.length ≥ s.k then
      ({ s with
        fifo := s.fifo.unlink req.obj_id
        pq := set_insert toLex (kth_vtime, req.obj_id) s.pq
        pq_map := update s.pq_map req.obj_id (some kth_vtime) }, true)
    else if !in_fifo then
      let old_kth := (s.pq_map req.obj_id).getD 0
      ({ s with
        pq := set_insert toLex (kth_vtime, req.obj_id) (set_erase toLex (old_kth, req.obj_id) s.pq)
        pq_map := update s.pq_map req.obj_id (some kth_vtime) }, true)
    else (s, true)

def LRU_K_insert (req : Request) : State :=
  let vtime := s.cache.n_req
  let s := { s with cache := s.cache.FIFO_insert req (), history := update s.history req.obj_id (some [vtime]) }
  if s.k = 1 then
    { s with pq := set_insert toLex (vtime, req.obj_id) s.pq, pq_map := update s.pq_map req.obj_id (some vtime) }
  else { s with fifo := s.fifo.push req.obj_id () }

def LRU_K_to_evict : Option ObjId :=
  match s.fifo.items () with
  | obj :: _ => some obj
  | [] => do
    let (_, evict_id) ← s.pq.argmin toLex
    guard (s.cache.q.lookup evict_id).isSome
    return evict_id

def LRU_K_evict : Option State :=
  match s.fifo.items () with
  | obj :: _ => do
    let o ← s.cache.q.lookup obj
    return { s with
      fifo := s.fifo.pop ()
      history := update s.history obj none
      cache := s.cache.cache_remove_obj_base obj o }
  | [] => do
    let it ← s.pq.argmin toLex
    let o ← s.cache.q.lookup it.2
    return { s with
      pq := set_erase toLex it s.pq
      pq_map := update s.pq_map it.2 none
      history := update s.history it.2 none
      cache := s.cache.cache_remove_obj_base it.2 o }

def LRU_K_remove (id : ObjId) : State × Bool :=
  match s.cache.q.lookup id with
  | none => (s, false)
  | some o =>
    let s := { s with history := update s.history id none }
    let s := if (s.fifo.slot id).isSome then { s with fifo := s.fifo.unlink id } else
      match s.pq_map id with
      | none => s
      | some kth_vtime =>
        { s with pq := set_erase toLex (kth_vtime, id) s.pq, pq_map := update s.pq_map id none }
    ({ s with cache := s.cache.cache_remove_obj_base id o }, true)

def ops : CacheOps State where
  count_req s := { s with cache := { s.cache with n_req := s.cache.n_req + 1 } }
  find s req := some (LRU_K_find s req)
  can_insert s req := some (s, !(req.obj_size + s.cache.obj_md_size > s.cache.cache_size))
  get_occupied_byte s := s.cache.occupied_byte
  obj_md_size s := s.cache.obj_md_size
  cache_size s := s.cache.cache_size
  evict s _ := LRU_K_evict s
  insert s req := some (LRU_K_insert s req)

def LRU_K_get (req : Request) : Option (State × Bool) :=
  ops.cache_get_base (fun s => s.cache.q.entries.length) s req

inductive Call
  | get (req : Request)
  | evict
  | remove (id : ObjId)

def call : Call → Option State
  | .get req => (LRU_K_get s req).map (·.1)
  | .evict => LRU_K_evict s
  | .remove id => some (LRU_K_remove s id).1

/-! ## Accesses -/

/-- The times of the accesses to each object since its insertion, the oldest first. -/
abbrev Log := ObjId → List Int

def first (l : List Int) : Int := l.headD 0

def window (k : Nat) (l : List Int) : List Int := l.drop (l.length - k)

def kth (k : Nat) (l : List Int) : Int := first (window k l)

/-- A get writes its time down if the object is resident after it, and starts anew if it was not before it. -/
def note (s t : State) (log : Log) : Call → Log
  | .get req => if req.obj_id ∈ t.cache.q then
      update log req.obj_id ((if req.obj_id ∈ s.cache.q then log req.obj_id else []) ++ [t.cache.n_req]) else log
  | _ => log

def noted (p : State × Log) (c : Call) : Option (State × Log) := (call p.1 c).map fun t => (t, note p.1 t p.2 c)

theorem first_append {l : List Int} (hl : l ≠ []) (l' : List Int) : first (l ++ l') = first l := by
  cases l with
  | nil => exact absurd rfl hl
  | cons t l => rfl

theorem length_window (k : Nat) (l : List Int) : (window k l).length = min k l.length := by
  simp [window]
  omega

theorem kth_mem {k : Nat} (hk : 1 ≤ k) {l : List Int} (hl : l ≠ []) : kth k l ∈ l := by
  have hpos := length_pos_iff.2 hl
  have hne : window k l ≠ [] := by
    rw [← length_pos_iff, length_window]
    omega
  obtain ⟨t, r, hr⟩ := exists_cons_of_ne_nil hne
  have hmem : t ∈ window k l := by simp [hr]
  rw [kth, hr]
  exact mem_of_mem_drop hmem

theorem push_window {k : Nat} (hk : 1 ≤ k) (l : List Int) (t : Int) : push k (window k l) t = window k (l ++ [t]) := by
  unfold push
  dsimp only
  rw [length_append, length_window, length_singleton]
  unfold window
  rw [length_append, length_singleton]
  split_ifs with hlt
  · have hdrop : l.length + 1 - k = l.length - k + 1 := by omega
    rw [hdrop, drop_append_of_le_length (by omega), tail_append_of_ne_nil, tail_drop]
    rw [Ne, drop_eq_nil_iff]
    omega
  · have hdrop : l.length - k = 0 ∧ l.length + 1 - k = 0 := by omega
    rw [hdrop.1, hdrop.2, drop_zero, drop_zero]

end CacheSim.LruK
