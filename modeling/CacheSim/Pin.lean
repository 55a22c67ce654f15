import CacheSim.Lru

/-!
# Eviction pinning (`cacheObj.h`)

A predicate makes objects unevictable for a while.
-/

namespace CacheSim

open Lib

/-- `g_cache_pin_pred` with its context; `none` if no predicate is set. -/
abbrev Pin := Option (ObjId → Bool)

namespace Pin

def is_pinned (pin : Pin) (id : ObjId) : Bool := pin.any fun pred => pred id

def cache_skip_pinned (pin : Pin) (queue : List ObjId) : Option ObjId :=
  (queue.reverse.find? fun id => !pin.is_pinned id).or queue.getLast?

theorem cache_skip_pinned_spec (pin : Pin) {queue : List ObjId} (h : queue ≠ []) :
    ∃ v, pin.cache_skip_pinned queue = some v ∧ v ∈ queue ∧
      ((∃ x ∈ queue, pin.is_pinned x = false) → pin.is_pinned v = false) := by
  unfold cache_skip_pinned
  rcases hfind : queue.reverse.find? fun id => !pin.is_pinned id with _ | v
  · refine ⟨queue.getLast h, by simp [List.getLast?_eq_some_getLast h], List.getLast_mem h, ?_⟩
    rintro ⟨x, hx, hpin⟩
    have hall := List.find?_eq_none.1 hfind x (by simpa using hx)
    simp [hpin] at hall
  · refine ⟨v, rfl, by simpa using List.mem_of_find?_eq_some hfind, fun _ => ?_⟩
    simpa using List.find?_some hfind

/-- An eviction that honours the pins: one object goes, not a pinned one unless all are. -/
def Honours {σ : Type} (pin : Pin) (resident : σ → ObjId → Prop) (evict : σ → Option σ) (s : σ) : Prop :=
  ∃ s' v, evict s = some s' ∧ resident s v ∧ (∀ x, resident s' x ↔ x ≠ v ∧ resident s x) ∧
    ((∃ x, resident s x ∧ pin.is_pinned x = false) → pin.is_pinned v = false)

theorem Honours.iff_victim {σ : Type} {pin : Pin} {resident : σ → ObjId → Prop} {evict : σ → Option σ} {s t : σ} {v : ObjId}
    (hevict : evict s = some t) (hv : resident s v) (hleft : ∀ x, resident t x ↔ x ≠ v ∧ resident s x) :
    pin.Honours resident evict s ↔ ((∃ x, resident s x ∧ pin.is_pinned x = false) → pin.is_pinned v = false) := by
  constructor
  · rintro ⟨t', v', ht, hv', hleft', hpin⟩
    obtain rfl : t = t' := Option.some.inj (hevict.symm.trans ht)
    have hsame : v' = v := by
      by_contra hne
      exact ((hleft' v').1 ((hleft v').2 ⟨hne, hv'⟩)).1 rfl
    exact hsame ▸ hpin
  · intro hpin
    exact ⟨t, v, hevict, hv, hleft, hpin⟩

/-- The calls on a policy, each under the pins that are in force at the time. -/
inductive Call where
  | get (pin : Pin) (req : Request)
  | evict (pin : Pin)
  | remove (id : ObjId)

def call {σ : Type} (get : Pin → σ → Request → Option (σ × Bool)) (evict : Pin → σ → Option σ)
    (remove : σ → ObjId → σ × Bool) (s : σ) : Call → Option σ
  | .get pin req => (get pin s req).map (·.1)
  | .evict pin => evict pin s
  | .remove id => some (remove s id).1

end Pin

/-! ## FIFO and LRU -/

namespace Fifo

variable {μ : Type}

/-- `FIFO_evict`. Without pins its hand-rolled unlink takes the tail, as this does. -/
def FIFO_evict_pinned (pin : Pin) (c : Fifo μ) : Option (Fifo μ) := do
  let id ← pin.cache_skip_pinned c.q.keys
  let victim ← c.q.lookup id
  return c.cache_remove_obj_base id victim

def FIFO_get_pinned [Inhabited μ] (pin : Pin) (c : Fifo μ) (req : Request) : Option (Fifo μ × Bool) :=
  { (ops : CacheOps (Fifo μ)) with evict := fun c _ => FIFO_evict_pinned pin c }.cache_get_base (fun c => c.q.entries.length) c req

def call [Inhabited μ] : Fifo μ → Pin.Call → Option (Fifo μ) := Pin.call FIFO_get_pinned FIFO_evict_pinned FIFO_remove

theorem FIFO_evict_honours (pin : Pin) {c : Fifo μ} (h : c.q.keys ≠ []) :
    pin.Honours (fun c x => x ∈ c.q) (FIFO_evict_pinned pin) c := by
  obtain ⟨v, hskip, hv, hpin⟩ := pin.cache_skip_pinned_spec h
  obtain ⟨o, ho⟩ := Table.exists_lookup (AList.mem_keys.2 hv)
  refine ⟨c.cache_remove_obj_base v o, v, by simp [FIFO_evict_pinned, hskip, ho], AList.mem_keys.2 hv, ?_, ?_⟩
  · intro x
    exact AList.mem_erase
  · rintro ⟨x, hx, hfree⟩
    exact hpin ⟨x, AList.mem_keys.1 hx, hfree⟩

end Fifo

namespace Lru

variable {μ : Type}

def LRU_evict_pinned (pin : Pin) (c : Lru μ) : Option (Lru μ) := c.FIFO_evict_pinned pin

def LRU_get_pinned [Inhabited μ] (pin : Pin) (c : Lru μ) (req : Request) : Option (Lru μ × Bool) :=
  { (ops : CacheOps (Fifo μ)) with evict := fun c _ => LRU_evict_pinned pin c }.cache_get_base (fun c => c.q.entries.length) c req

def call [Inhabited μ] : Lru μ → Pin.Call → Option (Lru μ) := Pin.call LRU_get_pinned LRU_evict_pinned LRU_remove

end Lru

end CacheSim
