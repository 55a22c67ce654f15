import CacheSim.Admission
import CacheSim.S3fifod.Model

/-!
# The main caches, for objects of any size

What a cache that holds objects of any size promises, and that FIFO, LRU and Clock keep the promise.
-/

namespace CacheSim.Qdlp

open Lib Option Fifo Function
open S3fifod (MainPolicy main_get queue_policy fifo lru clock)

variable {σ : Type}

structure Same (P : MainPolicy σ) (Inv : σ → Prop) (size_of : σ → ObjId → Option Int) (m m' : σ) : Prop where
  inv : Inv m'
  cache_size : P.ops.cache_size m' = P.ops.cache_size m
  n_obj : P.n_obj m' = P.n_obj m
  size_of : size_of m' = size_of m

/-- A cache that takes what fits and evicts object by object. An object is held for its size and the metadata. -/
structure Holds (P : MainPolicy σ) (Inv : σ → Prop) (size_of : σ → ObjId → Option Int) (md : Int) : Prop where
  md_nonneg : 0 ≤ md
  obj_md_size : ∀ m, Inv m → P.ops.obj_md_size m = md
  stock : ∀ m, Inv m → Stock (size_of m) (P.ops.get_occupied_byte m)
  probe : ∀ m id, P.probe m id = (size_of m id).isSome
  can_insert : ∀ m req, Inv m → P.ops.can_insert m req = some (m, !decide (req.obj_size + md > P.ops.cache_size m))
  count_req : ∀ m, Inv m → Same P Inv size_of m (P.ops.count_req m)
  find : ∀ m req, Inv m → ∃ m', P.ops.find m req = some (m', (size_of m req.obj_id).isSome) ∧ Same P Inv size_of m m'
  insert : ∀ m req, Inv m → size_of m req.obj_id = none → ∃ m', P.ops.insert m req = some m' ∧ Inv m' ∧
    P.ops.cache_size m' = P.ops.cache_size m ∧ P.n_obj m' = P.n_obj m + 1 ∧
    size_of m' = update (size_of m) req.obj_id (some (req.obj_size + md)) ∧
    P.ops.get_occupied_byte m' = P.ops.get_occupied_byte m + (req.obj_size + md)
  evict : ∀ m req, Inv m → 0 < P.ops.get_occupied_byte m → ∃ m' v n, P.ops.evict m req = some m' ∧ Inv m' ∧
    P.ops.cache_size m' = P.ops.cache_size m ∧ P.n_obj m' + 1 = P.n_obj m ∧ size_of m v = some n ∧
    size_of m' = update (size_of m) v none ∧ P.ops.get_occupied_byte m' = P.ops.get_occupied_byte m - n

/-! ## Queues -/

section
variable {μ : Type} {c : Fifo μ} {o : FifoObj μ} {id : ObjId} {md : Int}

def charged (c : Fifo μ) (x : ObjId) : Option Int := (c.q.lookup x).map c.charge

theorem charged_none : charged c id = none ↔ c.q.lookup id = none := map_eq_none_iff

theorem charged_some (h : c.q.lookup id = some o) : charged c id = some (c.charge o) := by
  unfold charged
  rw [h]
  rfl

structure Charges (md : Int) (c : Fifo μ) : Prop where
  inv : c.Inv
  md : c.obj_md_size = md

theorem Charges.init (K md : Int) : Charges md ({ cache_size := K, obj_md_size := md } : Fifo μ) := ⟨init_inv K md, rfl⟩

section

variable (h : Charges md c)
include h

theorem Charges.stock : Stock (charged c) c.occupied_byte := by
  rw [h.inv.occupied]
  exact .of_table c.q c.charge

theorem Charges.count_req : Charges md { c with n_req := c.n_req + 1 } :=
  ⟨⟨h.inv.occupied, h.inv.n_obj⟩, h.md⟩

theorem Charges.to_evict (hocc : 0 < c.occupied_byte) :
    ∃ e, c.FIFO_to_evict = some e ∧ c.q.lookup e.1 = some e.2 := by
  have hlast := List.getLast?_eq_some_getLast (entries_ne_nil_of_occupied h.inv hocc)
  exact ⟨_, hlast, lookup_to_evict hlast⟩

theorem moved (hid : c.q.lookup id = some o) (v : μ) :
    Charges md { c with q := c.q.insert id { o with md := v } } ∧
      charged { c with q := c.q.insert id { o with md := v } } = charged c ∧
      (c.q.insert id { o with md := v }).entries.length = c.q.entries.length := by
  have hlen : (c.q.insert id { o with md := v }).entries.length = c.q.entries.length := (Table.perm_erase hid).length_eq.symm
  refine ⟨⟨⟨?_, ?_⟩, h.md⟩, ?_, hlen⟩
  · have hw : Table.weigh (fun _ o => c.charge o) (c.q.insert id { o with md := v }) = _ := Table.weigh_update _ hid
    have hsame : c.charge { o with md := v } = c.charge o := rfl
    rw [hsame, Int.sub_add_cancel, ← h.inv.occupied] at hw
    exact hw.symm
  · rw [h.inv.n_obj]
    exact congrArg _ hlen.symm
  · funext x
    unfold charged
    rcases eq_or_ne x id with rfl | hne
    · rw [AList.lookup_insert, hid]
      rfl
    · rw [AList.lookup_insert_ne hne]
      rfl

end

theorem charged_set_md (h : c.q.lookup id = some o) (v : μ) : charged (c.set_md id o v) = charged c := by
  funext x
  unfold charged
  rw [lookup_set_md h]
  rcases eq_or_ne x id with rfl | hne
  · rw [if_pos rfl, h]
    rfl
  · rw [if_neg hne]
    rfl

theorem removed (h : Charges md c) (hid : c.q.lookup id = some o) :
    Charges md (c.cache_remove_obj_base id o) ∧ (c.cache_remove_obj_base id o).q.entries.length + 1 = c.q.entries.length ∧
      charged (c.cache_remove_obj_base id o) = update (charged c) id none := by
  refine ⟨⟨h.inv.remove hid, h.md⟩, (Table.perm_erase hid).length_eq.symm, ?_⟩
  funext x
  unfold charged Fifo.cache_remove_obj_base
  rcases eq_or_ne x id with rfl | hne
  · rw [AList.lookup_erase, update_self]
    rfl
  · rw [AList.lookup_erase_ne hne, update_of_ne hne]
    rfl

theorem inserted (h : Charges md c) (req : Request) (v : μ) (hmiss : charged c req.obj_id = none) :
    Charges md (c.FIFO_insert req v) ∧ (c.FIFO_insert req v).q.entries.length = c.q.entries.length + 1 ∧
      charged (c.FIFO_insert req v) = update (charged c) req.obj_id (some (req.obj_size + md)) ∧
      (c.FIFO_insert req v).occupied_byte = c.occupied_byte + (req.obj_size + md) := by
  refine ⟨⟨h.inv.insert v (AList.lookup_eq_none.1 (charged_none.1 hmiss)), h.md⟩, length_FIFO_insert v (charged_none.1 hmiss), ?_, ?_⟩
  · funext x
    unfold charged
    rw [lookup_FIFO_insert]
    rcases eq_or_ne x req.obj_id with rfl | hne
    · rw [update_self, if_pos rfl, ← h.md]
      rfl
    · rw [update_of_ne hne, if_neg hne]
      rfl
  · rw [← h.md]
    rfl

theorem queue_holds (hmd : 0 ≤ md) (find : Fifo Unit → Request → Option (Fifo Unit × Bool))
    (hfind : ∀ c req, Charges md c → ∃ c', find c req = some (c', (charged c req.obj_id).isSome) ∧ Charges md c' ∧
      c'.cache_size = c.cache_size ∧ c'.q.entries.length = c.q.entries.length ∧ charged c' = charged c) :
    Holds (queue_policy { (Fifo.ops : CacheOps (Fifo Unit)) with find := find }) (Charges md) charged md where
  md_nonneg := hmd
  obj_md_size _ h := h.md
  stock _ h := h.stock
  probe _ _ := isSome_map.symm
  can_insert := by
    intro c req h
    simp [queue_policy, Fifo.ops, h.md]
  count_req _ h := ⟨h.count_req, rfl, rfl, rfl⟩
  find := by
    intro c req h
    obtain ⟨c', hc', hcharges, hcs, hlen, hsame⟩ := hfind c req h
    exact ⟨c', hc', hcharges, hcs, hlen, hsame⟩
  insert := by
    intro c req h hmiss
    obtain ⟨hcharges, hlen, hsize, hocc⟩ := inserted h req () hmiss
    exact ⟨_, rfl, hcharges, rfl, hlen, hsize, hocc⟩
  evict := by
    intro c req h hocc
    obtain ⟨e, hlast, hlook⟩ := h.to_evict hocc
    obtain ⟨hcharges, hlen, hsize⟩ := removed h hlook
    have hevict : c.FIFO_evict = some (c.cache_remove_obj_base e.1 e.2) := by
      unfold Fifo.FIFO_evict
      rw [hlast]
      rfl
    exact ⟨_, e.1, c.charge e.2, hevict, hcharges, rfl, hlen, charged_some hlook, hsize, rfl⟩

theorem fifo_holds : Holds fifo (Charges 0) charged 0 := by
  apply queue_holds le_rfl Fifo.ops.find
  intro c req h
  exact ⟨c, congrArg (fun b => some (c, b)) isSome_map.symm, h, rfl, rfl, rfl⟩

theorem lru_holds (hmd : 0 ≤ md) : Holds lru (Charges md) charged md := by
  apply queue_holds hmd Lru.ops.find
  intro c req h
  cases hlook : c.q.lookup req.obj_id with
  | none =>
    rw [charged_none.2 hlook]
    exact ⟨c, by simp [Lru.ops, Lru.LRU_find_miss hlook], h, rfl, rfl, rfl⟩
  | some o =>
    obtain ⟨hcharges, hsame, hlen⟩ := moved h hlook o.md
    rw [charged_some hlook]
    exact ⟨_, by simp [Lru.ops, Lru.LRU_find_hit hlook], hcharges, rfl, hlen, hsame⟩

end

def Standing (s : Clock.State) (w : Clock.State × (Sigma fun _ : ObjId => FifoObj Int)) : Prop :=
  Charges 0 w.1.fifo ∧ w.1.fifo.q.lookup w.2.1 = some w.2.2 ∧ charged w.1.fifo = charged s.fifo ∧
    w.1.fifo.q.entries.length = s.fifo.q.entries.length ∧ w.1.fifo.cache_size = s.fifo.cache_size ∧
    w.1.fifo.occupied_byte = s.fifo.occupied_byte

theorem candidate_standing {s t : Clock.State} {e : Sigma fun _ : ObjId => FifoObj Int} (ht : Charges 0 t.fifo)
    (hsize : charged t.fifo = charged s.fifo) (hlen : t.fifo.q.entries.length = s.fifo.q.entries.length)
    (hcs : t.fifo.cache_size = s.fifo.cache_size) (hocc : t.fifo.occupied_byte = s.fifo.occupied_byte)
    (he : Clock.candidate none t = some e) : Standing s (t, e) := by
  obtain ⟨id, -, he⟩ := bind_eq_some_iff.1 he
  obtain ⟨o, ho, he⟩ := bind_eq_some_iff.1 he
  cases he
  exact ⟨ht, ho, hsize, hlen, hcs, hocc⟩

theorem Clock_evict_standing {s s' : Clock.State} (h : Charges 0 s.fifo) (hev : Clock.Clock_evict none s = some s') :
    ∃ t e, Standing s (t, e) ∧ s'.fifo = t.fifo.cache_remove_obj_base e.1 e.2 := by
  obtain ⟨e, he, hev⟩ := bind_eq_some_iff.1 hev
  obtain ⟨⟨t, v⟩, hloop, hev⟩ := bind_eq_some_iff.1 hev
  cases hev
  obtain ⟨hstand, -⟩ := whileLoop_inv (Standing s) (by
    rintro ⟨t, e⟩ w ⟨ht, hlook, hsize, hlen, hcs, hocc⟩ - hw
    obtain ⟨e', he', hw⟩ := bind_eq_some_iff.1 hw
    cases hw
    obtain ⟨hplain, hsame, hkept⟩ := moved ht hlook (e.2.md - 1)
    exact candidate_standing hplain (hsame.trans hsize) (hkept.trans hlen) hcs hocc he') _ _ _
    (candidate_standing h rfl rfl rfl rfl he) hloop
  exact ⟨t, v, hstand, rfl⟩

theorem clock_holds : Holds clock (fun s => Charges 0 s.fifo) (fun s => charged s.fifo) 0 where
  md_nonneg := le_rfl
  obj_md_size _ h := h.md
  stock _ h := h.stock
  probe _ _ := isSome_map.symm
  can_insert := by
    intro s req h
    simp [clock, Clock.ops, h.md]
  count_req _ h := ⟨h.count_req, rfl, rfl, rfl⟩
  find := by
    intro s req h
    cases hlook : s.fifo.q.lookup req.obj_id with
    | none =>
      rw [charged_none.2 hlook]
      exact ⟨s, by simp [clock, Clock.ops, Clock.Clock_find, hlook], h, rfl, rfl, rfl⟩
    | some o =>
      rw [charged_some hlook]
      by_cases hless : o.md < s.max_freq
      · refine ⟨{ s with fifo := s.fifo.set_md req.obj_id o (o.md + 1) },
          by simp [clock, Clock.ops, Clock.Clock_find, hlook, hless], ⟨h.inv.set_md hlook _, h.md⟩, rfl, ?_, charged_set_md hlook _⟩
        exact (Table.perm_replace hlook _).length_eq.trans (moved h hlook (o.md + 1)).2.2
      · exact ⟨s, by simp [clock, Clock.ops, Clock.Clock_find, hlook, hless], h, rfl, rfl, rfl⟩
  insert := by
    intro s req h hmiss
    obtain ⟨hcharges, hlen, hsize, hocc⟩ := inserted h req s.init_freq hmiss
    exact ⟨Clock.Clock_insert s req, rfl, hcharges, rfl, hlen, hsize, hocc⟩
  evict := by
    intro s req h hocc
    have hkeys : s.fifo.q.keys ≠ [] := by
      obtain ⟨e, -, hlook⟩ := h.to_evict hocc
      exact List.ne_nil_of_mem (AList.mem_keys.1 (Table.mem_of_lookup hlook))
    obtain ⟨s', -, hevict, -⟩ := Clock.Clock_evict_honours none hkeys
    obtain ⟨t, e, ⟨hplain, hlook, hsize, hlen, hcs, hoccs⟩, hs'⟩ := Clock_evict_standing h hevict
    obtain ⟨hplain', hlen', hsize'⟩ := removed hplain hlook
    refine ⟨s', e.1, t.fifo.charge e.2, hevict, hs' ▸ hplain', ?_, ?_, ?_, ?_, ?_⟩
    · exact (congrArg Fifo.cache_size hs').trans hcs
    · show s'.fifo.q.entries.length + 1 = s.fifo.q.entries.length
      rw [hs', ← hlen]
      exact hlen'
    · rw [← hsize]
      exact charged_some hlook
    · rw [hs', ← hsize]
      exact hsize'
    · show s'.fifo.occupied_byte = s.fifo.occupied_byte - _
      rw [hs', ← hoccs]
      rfl

/-! ## A get -/

variable {P : MainPolicy σ} {Inv : σ → Prop} {size_of : σ → ObjId → Option Int} {m : σ} {md : Int}

/-- What a get leaves of a cache, for objects of size 1 at least. -/
structure Got (P : MainPolicy σ) (Inv : σ → Prop) (size_of : σ → ObjId → Option Int) (md : Int) (req : Request) (m m' : σ) : Prop where
  inv : Inv m'
  cache_size : P.ops.cache_size m' = P.ops.cache_size m
  n_obj : P.n_obj m' ≤ P.n_obj m + 1
  fits : P.ops.get_occupied_byte m' ≤ P.ops.cache_size m'
  within : Within (size_of m') (update (size_of m) req.obj_id (some (req.obj_size + md)))
  taken : (size_of m' req.obj_id).isSome = decide (req.obj_size + md ≤ P.ops.cache_size m)

theorem main_get_spec (hP : Holds P Inv size_of md) (req : Request) (h : Inv m) (hmiss : size_of m req.obj_id = none)
    (hsized : ∀ x n, size_of m x = some n → 1 ≤ n) (hfits : P.ops.get_occupied_byte m ≤ P.ops.cache_size m) :
    ∃ m' hit, main_get P m req = some (m', hit) ∧ Got P Inv size_of md req m m' := by
  have hmd := hP.md_nonneg
  -- what the evictions leave
  let I : σ → Prop := fun t => Inv t ∧ P.ops.cache_size t = P.ops.cache_size m ∧ P.n_obj t ≤ P.n_obj m ∧
    Within (size_of t) (size_of m) ∧ P.ops.get_occupied_byte t ≤ P.ops.get_occupied_byte m
  have hwiden : ∀ {t : σ}, Within (size_of t) (size_of m) →
      Within (size_of t) (update (size_of m) req.obj_id (some (req.obj_size + md))) := by
    intro t hw x n hx
    rw [update_of_ne]
    · exact hw x n hx
    · rintro rfl
      cases hmiss.symm.trans (hw _ n hx)
  apply CacheOps.cache_get_base_total (· = m) (fun t => I t ∧ size_of t = size_of m)
    (fun t => I t ∧ req.obj_size + md ≤ P.ops.cache_size m) (Got P Inv size_of md req m) P.n_obj (fun _ _ => le_rfl) ?_ ?_ ?_ ?_ rfl
  · rintro t rfl
    have hc := hP.count_req t h
    obtain ⟨m', hm', hs⟩ := hP.find _ req hc.inv
    have hsame := hs.size_of.trans hc.size_of
    rw [hc.size_of, hmiss] at hm'
    refine ⟨m', false, hm', ⟨hs.inv, hs.cache_size.trans hc.cache_size, (hs.n_obj.trans hc.n_obj).le, ?_, ?_⟩, hsame⟩
    · rw [hsame]
      exact .refl _
    · exact ((hP.stock m' hs.inv).unique (hsame ▸ hP.stock t h)).le
  · rintro t ⟨⟨ht, hcs, hn, hw, hocc⟩, hsame⟩
    refine ⟨t, _, hP.can_insert t req ht, ?_⟩
    split_ifs with hadm
    · refine ⟨⟨ht, hcs, hn, hw, hocc⟩, ?_⟩
      rw [hcs] at hadm
      simpa using hadm
    · simp only [Bool.not_eq_eq_eq_not, Bool.not_true, Bool.not_eq_false, decide_eq_true_eq] at hadm
      refine ⟨ht, hcs, by omega, by omega, hwiden hw, ?_⟩
      rw [hsame, hmiss, eq_comm]
      exact decide_eq_false (by omega)
  · rintro t ⟨⟨ht, hcs, hn, hw, hocc⟩, hroom⟩ hfull
    rw [CacheOps.full_for_iff, hP.obj_md_size t ht] at hfull
    obtain ⟨t', v, n, hev, ht', hcs', hn', hv, hsize', hocc'⟩ := hP.evict t req ht (by omega)
    have hpos := hsized v n (hw v n hv)
    refine ⟨t', hev, ⟨⟨ht', hcs'.trans hcs, by omega, ?_, by omega⟩, hroom⟩, by omega⟩
    rw [hsize']
    exact Within.trans (.erase _ _) hw
  · rintro t ⟨⟨ht, hcs, hn, hw, hocc⟩, hroom⟩ hfree
    rw [CacheOps.full_for_false_iff, hP.obj_md_size t ht] at hfree
    obtain ⟨t', hi, ht', hcs', hn', hsize', hocc'⟩ := hP.insert t req ht (hw.eq_none hmiss)
    refine ⟨t', hi, ht', hcs'.trans hcs, by omega, by omega, ?_, ?_⟩
    · rw [hsize']
      intro x n hx
      rcases eq_or_ne x req.obj_id with rfl | hne
      · rwa [update_self] at hx ⊢
      · rw [update_of_ne hne] at hx ⊢
        exact hw x n hx
    · rw [hsize', update_self, eq_comm]
      exact decide_eq_true hroom

end CacheSim.Qdlp
