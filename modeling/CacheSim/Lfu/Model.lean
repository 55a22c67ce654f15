import CacheSim.LeCaR.Model

/-!
# LFU (`LFU.c`)

There is a list for each frequency, and the victim is the first of the list of `min_freq`. After an
eviction that empties this list `min_freq` is 0, and the next eviction looks for it.
-/

namespace CacheSim.Lfu

open Lib LeCaR Function

/-- `cache_t` with `LFU_params_t`. The metadata of an object is its `lfu.freq`; `freq_one_node` is the node of
frequency 1 in `freq_map`, which never leaves it. -/
structure State where
  cache_size : Int
  obj_md_size : Int
  n_req : Int := 0
  occupied_byte : Int := 0
  n_obj : Int := 0
  hashtable : Table ObjId (FifoObj Int) := ∅
  freq_map : Int → Option FreqNode := update (fun _ => none) 1 (some {})
  min_freq : Int := 1
  max_freq : Int := 1

def LFU_init (cache_size : Int) (consider_obj_metadata : Bool) : State where
  cache_size := cache_size
  obj_md_size := if consider_obj_metadata then 16 else 0

variable (s : State)

/-- The first frequency above `min_freq`, up to `max_freq`, with an object. -/
def next_freq : Option Int :=
  ((List.range (s.max_freq - s.min_freq).toNat).map fun k : Nat => s.min_freq + 1 + k).find? fun freq =>
    (s.freq_map freq).any fun node => node.n_obj > 0

def update_min_freq : State := { s with min_freq := (next_freq s).getD s.min_freq }

def get_min_freq_node : Option (State × FreqNode) := do
  let s := if s.min_freq = 0 then update_min_freq s else s
  let min_freq_node ← s.freq_map s.min_freq
  return (s, min_freq_node)

def unlink (freq : Int) (id : ObjId) : Option (State × FreqNode) := do
  let node ← s.freq_map freq
  let node := { node with objs := node.objs.erase id, n_obj := node.n_obj - 1 }
  return ({ s with freq_map := update s.freq_map freq (some node) }, node)

def append (id : ObjId) (obj : FifoObj Int) : State :=
  let new_node := (s.freq_map obj.md).getD {}
  { s with
    freq_map := update s.freq_map obj.md (some { new_node with objs := new_node.objs ++ [id], n_obj := new_node.n_obj + 1 })
    hashtable := s.hashtable.insert id obj }

def cache_remove_obj_base (id : ObjId) (obj : FifoObj Int) : State :=
  { s with
    hashtable := s.hashtable.erase id
    occupied_byte := s.occupied_byte - (obj.obj_size + s.obj_md_size)
    n_obj := s.n_obj - 1 }

/-! ## The calls -/

/-- The list that a hit object has left: if it is empty now, `min_freq` moves on, and the node goes unless it is the first one. -/
def settle (old_freq : Int) (old_node : FreqNode) : State :=
  if old_node.n_obj = 0 then
    let s := if s.min_freq = old_freq then update_min_freq s else s
    if old_freq ≠ 1 then { s with freq_map := update s.freq_map old_freq none } else s
  else s

def LFU_find (req : Request) (update_cache : Bool) : Option (State × Bool) :=
  match s.hashtable.lookup req.obj_id with
  | none => some (s, false)
  | some cache_obj =>
    if update_cache then do
      let freq := cache_obj.md + 1
      let s := if s.max_freq < freq then { s with max_freq := freq } else s
      let (s, old_node) ← unlink s (freq - 1) req.obj_id
      let s := append s req.obj_id { cache_obj with md := freq }
      return (settle s (freq - 1) old_node, true)
    else some (s, true)

def LFU_insert (req : Request) : State :=
  append { s with
    min_freq := 1
    occupied_byte := s.occupied_byte + (req.obj_size + s.obj_md_size)
    n_obj := s.n_obj + 1 } req.obj_id { obj_size := req.obj_size, md := 1 }

/-- `none` inside for a null pointer. `min_freq` may have been looked for. -/
def LFU_to_evict : Option (State × Option ObjId) := do
  let (s, min_freq_node) ← get_min_freq_node s
  return (s, min_freq_node.objs.head?)

def LFU_evict : Option State := do
  let (s, min_freq_node) ← get_min_freq_node s
  let id ← min_freq_node.objs.head?
  let obj_to_evict ← s.hashtable.lookup id
  let (s, min_freq_node) ← unlink s s.min_freq id
  let s := if min_freq_node.n_obj = 0 then { s with min_freq := 0 } else s
  return cache_remove_obj_base s id obj_to_evict

def LFU_remove_obj (id : ObjId) (obj : FifoObj Int) : Option State := do
  let (s, freq_node) ← unlink s obj.md id
  let s := cache_remove_obj_base s id obj
  return if obj.md = s.min_freq ∧ freq_node.n_obj = 0 then update_min_freq s else s

def LFU_remove (id : ObjId) : Option (State × Bool) :=
  match s.hashtable.lookup id with
  | none => some (s, false)
  | some obj => (LFU_remove_obj s id obj).map fun s => (s, true)

def ops : CacheOps State where
  count_req s := { s with n_req := s.n_req + 1 }
  find s req := LFU_find s req true
  can_insert s req := some (s, !(req.obj_size + s.obj_md_size > s.cache_size))
  get_occupied_byte s := s.occupied_byte
  obj_md_size s := s.obj_md_size
  cache_size s := s.cache_size
  evict s _ := LFU_evict s
  insert s req := some (LFU_insert s req)

def LFU_get (req : Request) : Option (State × Bool) :=
  ops.cache_get_base (fun s => s.hashtable.entries.length) s req

inductive Call where
  | get (req : Request)
  | evict
  | remove (id : ObjId)
deriving DecidableEq, Repr

def call : Call → Option State
  | .get req => (LFU_get s req).map (·.1)
  | .evict => LFU_evict s
  | .remove id => (LFU_remove s id).map (·.1)

/-!
## What LFU stands for

Each resident is kept with the accesses since it was inserted and with the time at which it reached that many.
-/

structure Entry where
  obj_size : Int
  count : Int
  reached : Nat
deriving DecidableEq, Repr

def Entry.Before (e e' : Entry) : Prop := e.count < e'.count ∨ e.count = e'.count ∧ e.reached < e'.reached

instance : DecidableRel Entry.Before := fun _ _ => inferInstanceAs (Decidable (_ ∨ _ ∧ _))

structure Counted where
  cache_size : Int
  obj_md_size : Int
  /-- the accesses so far -/
  clock : Nat := 0
  residents : Table ObjId Entry := ∅

namespace Counted

variable (a : Counted)

def init (cache_size : Int) (consider_obj_metadata : Bool) : Counted where
  cache_size := cache_size
  obj_md_size := if consider_obj_metadata then 16 else 0

def occupied_byte : Int := a.residents.weigh fun _ e => e.obj_size + a.obj_md_size

def reach (id : ObjId) (obj_size count : Int) : Counted :=
  { a with
    clock := a.clock + 1
    residents := a.residents.insert id { obj_size := obj_size, count := count, reached := a.clock } }

def access (req : Request) : Counted × Bool :=
  match a.residents.lookup req.obj_id with
  | none => (a, false)
  | some e => (a.reach req.obj_id e.obj_size (e.count + 1), true)

def victim : Option ObjId :=
  (a.residents.entries.find? fun e => a.residents.entries.all fun e' => ¬ e'.2.Before e.2).map (·.1)

def forget (id : ObjId) : Counted := { a with residents := a.residents.erase id }

def remove (id : ObjId) : Counted × Bool :=
  match a.residents.lookup id with
  | none => (a, false)
  | some _ => (a.forget id, true)

def ops : CacheOps Counted where
  count_req a := a
  find a req := some (a.access req)
  can_insert a req := some (a, !(req.obj_size + a.obj_md_size > a.cache_size))
  get_occupied_byte a := a.occupied_byte
  obj_md_size a := a.obj_md_size
  cache_size a := a.cache_size
  evict a _ := a.victim.map a.forget
  insert a req := some (a.reach req.obj_id req.obj_size 1)

def get (req : Request) : Option (Counted × Bool) := ops.cache_get_base (fun a => a.residents.entries.length) a req

def call (a : Counted) : Call → Option Counted
  | .get req => (a.get req).map (·.1)
  | .evict => a.victim.map a.forget
  | .remove id => some (a.remove id).1

/-- The fewest accesses, and reached before all others with as few. -/
structure IsVictim (id : ObjId) (e : Entry) : Prop where
  resident : a.residents.lookup id = some e
  first : ∀ x e', a.residents.lookup x = some e' → x ≠ id → e.count < e'.count ∨ e.count = e'.count ∧ e.reached < e'.reached

variable {a}

theorem IsVictim.victim {id : ObjId} {e : Entry} (h : a.IsVictim id e) : a.victim = some id := by
  have hmem := Table.mem_entries_of_lookup h.resident
  have hfirst : ∀ y ∈ a.residents.entries, ¬ y.2.Before e := by
    intro y hy hbefore
    have hlookup := Table.lookup_of_mem_entries hy
    rcases eq_or_ne y.1 id with heq | hne
    · rw [heq, h.resident] at hlookup
      cases hlookup
      unfold Entry.Before at hbefore
      omega
    · have hlater := h.first y.1 y.2 hlookup hne
      unfold Entry.Before at hbefore
      omega
  unfold Counted.victim
  rw [Option.map_eq_some_iff]
  rcases hfind : a.residents.entries.find? fun e => a.residents.entries.all fun e' => ¬ e'.2.Before e.2 with _ | ⟨x, e'⟩
  · have hnone := List.find?_eq_none.1 hfind ⟨id, e⟩ hmem
    exact absurd (List.all_eq_true.2 fun y hy => decide_eq_true (hfirst y hy)) hnone
  · refine ⟨⟨x, e'⟩, hfind, ?_⟩
    have hx : a.residents.lookup x = some e' := Table.lookup_of_mem_entries (List.mem_of_find?_eq_some hfind)
    have hleast := List.find?_some hfind
    have hall := List.all_eq_true.1 hleast ⟨id, e⟩ hmem
    by_contra hne
    exact of_decide_eq_true hall (h.first x e' hx hne)

end Counted

end CacheSim.Lfu
