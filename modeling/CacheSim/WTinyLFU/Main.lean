import CacheSim.Admission
import CacheSim.Slru.Overfull
import CacheSim.WTinyLFU.Model

/-!
# What W-TinyLFU needs of its main cache

Lookups and evictions lose objects only, and an insertion of an object that the cache admits finds a place for
it.
-/

namespace CacheSim.WTinyLFU

open Lib Option Fifo
open S3fifod (MainPolicy lru)

variable {σ : Type}

structure Less (P : MainPolicy σ) (Inv : σ → Prop) (size_of : σ → ObjId → Option Int) (limit : σ → Int) (m m' : σ) : Prop where
  inv : Inv m'
  limit : limit m' = limit m
  within : Within (size_of m') (size_of m)
  occupied : P.ops.get_occupied_byte m' ≤ P.ops.get_occupied_byte m

/-- A cache of objects of up to `limit` bytes each. -/
structure Serves (P : MainPolicy σ) (Inv : σ → Prop) (size_of : σ → ObjId → Option Int) (limit : σ → Int) : Prop where
  obj_md_size : ∀ m, Inv m → P.ops.obj_md_size m = 0
  limit_le : ∀ m, limit m ≤ P.ops.cache_size m
  probe : ∀ m id, P.probe m id = (size_of m id).isSome
  nonneg : ∀ m, Inv m → 0 ≤ P.ops.get_occupied_byte m
  size_le : ∀ m id n, Inv m → size_of m id = some n → 1 ≤ n ∧ n ≤ P.ops.get_occupied_byte m
  can_insert : ∀ m req, Inv m → P.ops.can_insert m req = some (m, decide (req.obj_size ≤ limit m))
  find : ∀ m req, Inv m → ∃ m', P.ops.find m req = some (m', (size_of m req.obj_id).isSome) ∧ Less P Inv size_of limit m m'
  to_evict : ∀ m, Inv m → 0 < P.ops.get_occupied_byte m → ∃ v, P.to_evict m = some v
  evict : ∀ m req, Inv m → 0 < P.ops.get_occupied_byte m → ∃ m', P.ops.evict m req = some m' ∧ Less P Inv size_of limit m m' ∧
    P.ops.get_occupied_byte m' < P.ops.get_occupied_byte m
  evict_some : ∀ m req m', Inv m → P.ops.evict m req = some m' → 0 < P.ops.get_occupied_byte m
  insert : ∀ m req, Inv m → size_of m req.obj_id = none → 1 ≤ req.obj_size → req.obj_size ≤ limit m →
    ∃ m', P.ops.insert m req = some m' ∧ Inv m' ∧ limit m' = limit m ∧
      Within (size_of m') (Function.update (size_of m) req.obj_id (some req.obj_size)) ∧
      size_of m' req.obj_id = some req.obj_size ∧
      P.ops.get_occupied_byte m' ≤ P.ops.get_occupied_byte m + req.obj_size

/-! ## LRU -/

structure Sized {μ : Type} (c : Fifo μ) : Prop where
  plain : c.Plain
  sized : ∀ x n, c.size_of x = some n → 1 ≤ n

namespace Sized

variable {μ : Type} {c : Fifo μ} {id : ObjId} {o : FifoObj μ} {req : Request}

section

variable (h : Sized c)
include h

theorem nonneg : 0 ≤ c.occupied_byte := h.plain.stock.nonneg h.sized

theorem remove (id : ObjId) : Sized (c.FIFO_remove id).1 := by
  refine ⟨h.plain.remove id, fun x n hx => ?_⟩
  rw [size_of_remove] at hx
  exact h.sized x n (Within.erase _ _ x n hx)

theorem size_le (hid : c.q.lookup id = some o) : 1 ≤ o.obj_size ∧ o.obj_size ≤ c.occupied_byte := by
  have hleft := (h.remove id).nonneg
  rw [h.plain.occupied_remove hid] at hleft
  exact ⟨h.sized id _ (size_of_some hid), by omega⟩

theorem insert (md : μ) (hmiss : c.size_of req.obj_id = none) (hsize : 1 ≤ req.obj_size) :
    Sized (c.FIFO_insert req md) := by
  refine ⟨h.plain.insert md hmiss, fun x n hx => ?_⟩
  rw [size_of_insert] at hx
  rcases eq_or_ne x req.obj_id with rfl | hne
  · rw [Function.update_self] at hx
    cases hx
    exact hsize
  · rw [Function.update_of_ne hne] at hx
    exact h.sized x n hx

theorem evict (hocc : 0 < c.occupied_byte) :
    ∃ e, c.FIFO_to_evict = some e ∧ c.q.lookup e.1 = some e.2 ∧ c.FIFO_evict = some (c.FIFO_remove e.1).1 := by
  obtain ⟨e, hlast, hlook⟩ := h.plain.to_evict hocc
  refine ⟨e, hlast, hlook, ?_⟩
  unfold Fifo.FIFO_evict Fifo.FIFO_remove
  rw [hlast, hlook]
  rfl

theorem LRU_find (req : Request) :
    Sized (Lru.LRU_find c req true).1 ∧ (Lru.LRU_find c req true).1.size_of = c.size_of ∧
      (Lru.LRU_find c req true).1.occupied_byte = c.occupied_byte ∧ (Lru.LRU_find c req true).1.cache_size = c.cache_size ∧
      (Lru.LRU_find c req true).2.isSome = (c.size_of req.obj_id).isSome := by
  rcases hlook : c.q.lookup req.obj_id with _ | o
  · rw [Lru.LRU_find_miss hlook, size_of_none.2 hlook]
    exact ⟨h, rfl, rfl, rfl, rfl⟩
  · have hsame : Fifo.size_of { c with q := c.q.insert req.obj_id o } = c.size_of := by
      funext x
      exact congrArg (Option.map (·.obj_size)) (Lru.lookup_move_to_head hlook x)
    rw [Lru.LRU_find_hit hlook, size_of_some hlook]
    refine ⟨⟨⟨Lru.Inv.move_to_head h.plain.inv hlook, h.plain.md⟩, ?_⟩, hsame, rfl, rfl, rfl⟩
    rw [hsame]
    exact h.sized

end

end Sized

theorem lru_serves : Serves lru Sized Fifo.size_of Fifo.cache_size where
  obj_md_size _ h := h.plain.md
  limit_le _ := le_rfl
  probe _ _ := isSome_map.symm
  nonneg _ h := h.nonneg
  size_le := by
    intro c id n h hid
    obtain ⟨o, ho, rfl⟩ := map_eq_some_iff.1 hid
    exact h.size_le ho
  can_insert := by
    intro c req h
    have hiff : (!decide (req.obj_size + c.obj_md_size > c.cache_size)) = decide (req.obj_size ≤ c.cache_size) := by
      rw [h.plain.md, Int.add_zero, Bool.eq_iff_iff]
      simp
    exact congrArg (fun b => some (c, b)) hiff
  find := by
    intro c req h
    obtain ⟨hs, hsame, hocc, hcs, hhit⟩ := h.LRU_find req
    exact ⟨_, congrArg (fun b => some (_, b)) hhit, hs, hcs, hsame ▸ .refl _, hocc.le⟩
  to_evict := by
    intro c h hocc
    obtain ⟨e, hlast, -⟩ := h.evict hocc
    exact ⟨_, congrArg (Option.map copy_cache_obj_to_request) hlast⟩
  evict := by
    intro c req h hocc
    obtain ⟨e, -, hlook, hev⟩ := h.evict hocc
    have hocc' := h.plain.occupied_remove hlook
    have hsize := h.size_le hlook
    refine ⟨_, hev, ⟨h.remove e.1, FIFO_remove_cache_size _, ?_, ?_⟩, ?_⟩
    · rw [size_of_remove]
      exact .erase _ _
    · show (c.FIFO_remove e.1).1.occupied_byte ≤ c.occupied_byte
      omega
    · show (c.FIFO_remove e.1).1.occupied_byte < c.occupied_byte
      omega
  evict_some := by
    intro c req c' h hev
    obtain ⟨e, hlast, -⟩ := bind_eq_some_iff.1 hev
    have hsize := h.size_le (lookup_to_evict hlast)
    exact Int.lt_of_lt_of_le Int.zero_lt_one (hsize.1.trans hsize.2)
  insert := by
    intro c req h hmiss hsize _
    refine ⟨_, rfl, h.insert () hmiss hsize, rfl, ?_, ?_, (h.plain.occupied_insert req ()).le⟩
    · rw [show (Lru.LRU_insert c req default).size_of = _ from size_of_insert c req ()]
      exact .refl _
    · rw [show (Lru.LRU_insert c req default).size_of = _ from size_of_insert c req (), Function.update_self]

theorem slru_serves {n : Nat} {mx : Nat → Int} (hn : 0 < n) (hmx : Slru.Ascending n mx) :
    Serves slru (Slru.Loose n mx) Slru.size_of fun s => min s.cache_size (mx 0) where
  obj_md_size _ h := h.md
  limit_le _ := min_le_left _ _
  probe _ _ := isSome_map.symm
  nonneg _ h := h.occupied_nonneg
  size_le _ _ _ h hid := h.size_le hid
  can_insert := by
    intro s req h
    have hmd := h.md
    have hmax := h.max_eq
    have hiff : Slru.SLRU_can_insert s req = decide (req.obj_size ≤ min s.cache_size (mx 0)) := by
      unfold Slru.SLRU_can_insert
      rw [hmd, hmax, Int.add_zero, Bool.eq_iff_iff]
      simp
    exact congrArg (fun b => some (s, b)) hiff
  find := by
    intro s req h
    obtain ⟨t, ht, hloose, hocc⟩ := h.find hmx req
    exact ⟨t, ht, hloose, congrArg (min · (mx 0)) (Slru.find_cache_size ht), Slru.find_within ht, hocc⟩
  to_evict := by
    intro s h hocc
    obtain ⟨t, hev, -⟩ := h.evict hocc
    obtain ⟨v, hv, hev⟩ := bind_eq_some_iff.1 hev
    obtain ⟨o, ho, -⟩ := bind_eq_some_iff.1 hev
    exact ⟨{ obj_id := v, obj_size := o.obj_size }, by simp [slru, hv, ho]⟩
  evict := by
    intro s req h hocc
    obtain ⟨t, hev, hloose, hless, -⟩ := h.evict hocc
    exact ⟨t, hev, ⟨hloose, congrArg (min · (mx 0)) (Slru.evict_cache_size hev), Slru.evict_within hev, hless.le⟩, hless⟩
  evict_some := by
    intro s req t h hev
    obtain ⟨v, -, hev⟩ := bind_eq_some_iff.1 hev
    obtain ⟨o, ho, -⟩ := bind_eq_some_iff.1 hev
    have hid : Slru.size_of s v = some o.obj_size := map_eq_some_iff.2 ⟨o, ho, rfl⟩
    exact Int.lt_of_lt_of_le Int.zero_lt_one ((h.size_le hid).1.trans (h.size_le hid).2)
  insert := by
    intro s req h hmiss hsize hlimit
    obtain ⟨t, hi, hloose, hcs, hwithin, hin, hocc⟩ := h.insert hn hmiss hsize (hlimit.trans (min_le_right _ _))
      (hlimit.trans (min_le_left _ _))
    exact ⟨t, hi, hloose, congrArg (min · (mx 0)) hcs, hwithin, hin, hocc⟩

end CacheSim.WTinyLFU
