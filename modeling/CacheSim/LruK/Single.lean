import CacheSim.LruK.Proofs

/-!
# LRU-K with one access is LRU
-/

namespace CacheSim.LruK

open Lib List AList Function

def answer {σ : Type} (ops : CacheOps σ) (fuel : σ → Nat) (to_evict : σ → Option ObjId) (remove : σ → ObjId → σ)
    (p : σ × List Bool × List ObjId) : Call → Option (σ × List Bool × List ObjId)
  | .get req =>
    ((ops.observed fun s vs => vs ++ (to_evict s).toList).cache_get_base (fun p => fuel p.1) (p.1, p.2.2) req).map
      fun r => (r.1.1, p.2.1 ++ [r.2], r.1.2)
  | .evict => (ops.evict p.1 { obj_id := 0 }).map fun s => (s, p.2.1, p.2.2 ++ (to_evict p.1).toList)
  | .remove id => some (remove p.1 id, p.2)

def lru_k_answer : State × List Bool × List ObjId → Call → Option (State × List Bool × List ObjId) :=
  answer ops (fun s => s.cache.q.entries.length) LRU_K_to_evict fun s id => (LRU_K_remove s id).1

def lru_answer : Lru Unit × List Bool × List ObjId → Call → Option (Lru Unit × List Bool × List ObjId) :=
  answer Lru.ops (fun c => c.q.entries.length) (fun c => c.LRU_to_evict.map (·.1)) fun c id => (c.LRU_remove id).1

/-- `q` is the table of `s` in the order of the last accesses. -/
structure Twin (log : Log) (s : State) (q : Table ObjId (FifoObj Unit)) : Prop where
  inv : Inv s log
  one : s.k = 1
  lookup : ∀ x, q.lookup x = s.cache.q.lookup x
  order : q.keys.Pairwise fun x y => kth 1 (log y) < kth 1 (log x)

variable {log : Log} {s : State} {q : Table ObjId (FifoObj Unit)} {id : ObjId} {req : Request}

theorem kth_one (l : List Int) (t : Int) : kth 1 (l ++ [t]) = t := by
  simp [kth, window, first]

section

variable (h : Twin log s q)
include h

theorem Twin.mem {x : ObjId} : x ∈ q ↔ x ∈ s.cache.q := by
  rw [← lookup_isSome, h.lookup, lookup_isSome]

theorem Twin.length : q.entries.length = s.cache.q.entries.length := by
  have hperm : q.keys.Perm s.cache.q.keys :=
    (perm_ext_iff_of_nodup q.keys_nodup s.cache.q.keys_nodup).2 fun x => h.mem
  simpa [AList.keys, List.keys] using hperm.length_eq

theorem Twin.renew {s' : State} (hfresh : Fresh s log) {o : FifoObj Unit} {l : List Int}
    (hinv : Inv s' (update log id (l ++ [s.cache.n_req]))) (hone : s'.k = 1)
    (hlookup : ∀ x, s'.cache.q.lookup x = if x = id then some o else s.cache.q.lookup x) :
    Twin (update log id (l ++ [s.cache.n_req])) s' (q.insert id o) := by
  refine ⟨hinv, hone, fun x => ?_, ?_⟩
  · rw [hlookup]
    split_ifs with hx
    · rw [hx, lookup_insert]
    · rw [lookup_insert_ne hx, h.lookup]
  · rw [keys_insert, pairwise_cons]
    have hother {x : ObjId} (hx : x ∈ q.keys.erase id) : x ∈ q ∧ x ≠ id := by
      obtain ⟨hne, hmem⟩ := (List.Nodup.mem_erase_iff q.keys_nodup).1 hx
      exact ⟨hmem, hne⟩
    constructor
    · intro x hx
      obtain ⟨hmem, hne⟩ := hother hx
      have hres := h.mem.1 hmem
      rw [update_self, kth_one, update_of_ne hne]
      exact hfresh x hres _ (kth_mem le_rfl (h.inv.times.nonempty x hres))
    · apply (h.order.sublist erase_sublist).imp_of_mem
      intro x y hx hy hlt
      rwa [update_of_ne (hother hx).2, update_of_ne (hother hy).2]

theorem Twin.drop {o : FifoObj Unit} (ho : s.cache.q.lookup id = some o) : Twin log (drop s id o) (q.erase id) := by
  refine ⟨drop_spec h.inv ho, h.one, fun x => ?_, ?_⟩
  · show _ = (s.cache.q.erase id).lookup x
    by_cases hx : x = id
    · rw [hx, lookup_erase, lookup_erase]
    · rw [lookup_erase_ne hx, lookup_erase_ne hx, h.lookup]
  · rw [keys_erase]
    exact h.order.sublist erase_sublist

theorem Twin.evict (hne : s.cache.q.entries ≠ []) : ∃ v o, LRU_K_to_evict s = some v ∧
    LRU_K_evict s = some (LruK.drop s v o) ∧ Twin log (LruK.drop s v o) (q.erase v) ∧
    Lru.LRU_to_evict { s.cache with q := q } = some ⟨v, o⟩ ∧
    Lru.LRU_evict { s.cache with q := q } = some { (LruK.drop s v o).cache with q := q.erase v } ∧
    s.cache.q.lookup v = some o := by
  obtain ⟨v, o, ho, hv⟩ := evict_spec h.inv hne
  have hq : q.entries ≠ [] := by
    rw [← length_pos_iff, h.length]
    exact length_pos_iff.2 hne
  obtain ⟨l, ⟨x, p⟩, hl⟩ := (eq_nil_or_concat' q.entries).resolve_left hq
  obtain ⟨hto, hevict, -⟩ := Lru.LRU_evict_last (c := { s.cache with q := q }) hl
  have hx : q.lookup x = some p := Table.lookup_of_mem_entries (e := ⟨x, p⟩) (by simp [hl])
  have hkeys : q.keys = l.keys ++ [x] := by simp [AList.keys, hl]
  obtain rfl : x = v := by
    by_contra hne
    have hbefore := hv.victim x (h.mem.1 (Table.mem_of_lookup hx)) hne
    have hpos := length_pos_iff.2 (h.inv.times.nonempty v hv.resident)
    rw [Before, h.one, if_neg (by omega)] at hbefore
    have hmem : v ∈ q.keys := h.mem.2 hv.resident
    have horder := h.order
    rw [hkeys, mem_append, mem_singleton] at hmem
    rw [hkeys, pairwise_append] at horder
    have hlt := horder.2.2 v (hmem.resolve_right (Ne.symm hne)) x (mem_singleton_self x)
    exact absurd hbefore.2 hlt.not_gt
  obtain rfl : p = o := by
    rw [h.lookup, ho] at hx
    exact (Option.some.inj hx).symm
  exact ⟨x, p, hv.to_evict, hv.evict, h.drop ho, hto, hevict, ho⟩

end

theorem evict_empty (h : Inv s log) (hempty : s.cache.q.entries = []) : LRU_K_evict s = none := by
  have hnone (x : ObjId) : x ∉ s.cache.q := by simp [AList.mem_keys, AList.keys, hempty]
  have hitems : s.fifo.items () = [] := eq_nil_iff_forall_not_mem.2 fun x hx => hnone x (h.mem_items.1 hx).1
  have hpq : s.pq = [] := by
    apply eq_nil_iff_forall_not_mem.2
    intro a ha
    have hold := h.mem_pq.1 ha
    simp [h.old, hnone] at hold
  simp [LRU_K_evict, hitems, hpq]

/-! ## Both caches step by step -/

def Same (p : State × List ObjId) (r : Lru Unit × List ObjId) : Prop :=
  p.2 = r.2 ∧ ∃ log q, Twin log p.1 q ∧ r.1 = { p.1.cache with q := q }

def Missed (id : ObjId) (p : State × List ObjId) (r : Lru Unit × List ObjId) : Prop :=
  p.2 = r.2 ∧ id ∉ p.1.cache.q ∧ ∃ log q, Twin log p.1 q ∧ Fresh p.1 log ∧ r.1 = { p.1.cache with q := q }

theorem evict_rel {P : State × List ObjId → Lru Unit × List ObjId → Prop} (vs : List ObjId) (h : Twin log s q)
    (hP : ∀ v o ws, s.cache.q.lookup v = some o → Twin log (drop s v o) (q.erase v) →
      P (drop s v o, ws) ({ (drop s v o).cache with q := q.erase v }, ws)) :
    Option.Rel P ((LRU_K_evict s).map fun t => (t, vs ++ (LRU_K_to_evict s).toList))
      ((Lru.LRU_evict { s.cache with q := q }).map fun c =>
        (c, vs ++ ((Lru.LRU_to_evict { s.cache with q := q }).map (·.1)).toList)) := by
  by_cases hempty : s.cache.q.entries = []
  · have hq : q.entries = [] := by
      rw [← length_eq_zero_iff, h.length, hempty]
      rfl
    rw [evict_empty h.inv hempty]
    simp [Lru.LRU_evict, Fifo.FIFO_evict, Fifo.FIFO_to_evict, hq]
  · obtain ⟨v, o, hto, hevict, htwin, hto', hevict', ho⟩ := h.evict hempty
    rw [hto, hevict, hto', hevict']
    exact .some (hP v o _ ho htwin)

theorem get_rel (req : Request) {p : State × List ObjId} {r : Lru Unit × List ObjId} (h : Same p r) :
    Option.Rel (fun a b => Same a.1 b.1 ∧ a.2 = b.2)
      ((ops.observed fun s vs => vs ++ (LRU_K_to_evict s).toList).cache_get_base (fun p => p.1.cache.q.entries.length) p req)
      ((Lru.ops.observed fun c vs => vs ++ (c.LRU_to_evict.map (·.1)).toList).cache_get_base
        (fun r => r.1.q.entries.length) r req) := by
  refine CacheOps.cache_get_base_rel Same (Missed req.obj_id) ?_ ?_ ?_ ?_ ?_ ?_ h
  · rintro ⟨s, vs⟩ ⟨_, _⟩ ⟨rfl, log, q, h, rfl⟩
    obtain ⟨hinv, hfresh⟩ := tick h.inv
    have htwin : Twin log (ops.count_req s) q := { h with inv := hinv }
    show Option.Rel _ (some (((LRU_K_find (ops.count_req s) req).1, vs), (LRU_K_find (ops.count_req s) req).2))
      (some (((Lru.LRU_find { (ops.count_req s).cache with q := q } req true).1, vs),
        (Lru.LRU_find { (ops.count_req s).cache with q := q } req true).2.isSome))
    cases ho : q.lookup req.obj_id with
    | none =>
      have hmiss := htwin.lookup req.obj_id
      rw [ho] at hmiss
      rw [Lru.LRU_find_miss ho]
      simp only [LRU_K_find, ← hmiss]
      exact .some ⟨⟨rfl, lookup_eq_none.1 hmiss.symm, log, q, htwin, hfresh, rfl⟩, rfl⟩
    | some o =>
      obtain ⟨t, hfind, hcache, hk, hinv'⟩ := find_hit hinv hfresh rfl (htwin.mem.1 (Table.mem_of_lookup ho))
      rw [hfind, Lru.LRU_find_hit ho]
      refine .some ⟨⟨rfl, _, _, htwin.renew hfresh hinv' (hk.trans h.one) (o := o) fun x => ?_, ?_⟩, rfl⟩
      · rw [hcache]
        split_ifs with hx
        · rw [hx, ← htwin.lookup, ho]
        · rfl
      · rw [hcache]
  all_goals rintro ⟨s, vs⟩ ⟨_, _⟩ ⟨rfl, hx, log, q, h, hfresh, rfl⟩
  · refine .some ⟨?_, rfl⟩
    split_ifs
    · exact ⟨rfl, hx, log, q, h, hfresh, rfl⟩
    · exact ⟨rfl, log, q, h, rfl⟩
  · rfl
  · exact h.length.symm
  · apply evict_rel _ h
    intro v o ws ho htwin
    have hsub {x : ObjId} (hx : x ∈ (drop s v o).cache.q) : x ∈ s.cache.q := (mem_erase.1 hx).2
    exact ⟨rfl, fun hin => hx (hsub hin), log, _, htwin, fun x hin => hfresh x (hsub hin), rfl⟩
  · refine .some ⟨rfl, _, _, h.renew (l := []) hfresh (insert_spec h.inv hfresh rfl hx) ?_ (o := ⟨req.obj_size, ()⟩) fun x => ?_, ?_⟩
    · dsimp only [LRU_K_insert]
      split_ifs <;> exact h.one
    · rw [insert_cache]
      exact Fifo.lookup_FIFO_insert req () x
    · rw [insert_cache]
      rfl

theorem answer_rel (p : State × List Bool × List ObjId) (r : Lru Unit × List Bool × List ObjId) (c : Call)
    (h : p.2.1 = r.2.1 ∧ Same (p.1, p.2.2) (r.1, r.2.2)) :
    Option.Rel (fun p r => p.2.1 = r.2.1 ∧ Same (p.1, p.2.2) (r.1, r.2.2)) (lru_k_answer p c) (lru_answer r c) := by
  obtain ⟨s, hits, vs⟩ := p
  obtain ⟨d, hits', vs'⟩ := r
  obtain ⟨rfl, h⟩ := h
  cases c with
  | get req =>
    apply map_rel (get_rel req h)
    rintro ⟨⟨t, ws⟩, hit⟩ ⟨⟨e, ws'⟩, _⟩ ⟨hsame, rfl⟩
    exact ⟨rfl, hsame⟩
  | evict =>
    obtain ⟨rfl, log, q, h, rfl⟩ := h
    have hevict := evict_rel (P := Same) vs h fun v o ws _ htwin => ⟨rfl, log, _, htwin, rfl⟩
    have hmap := map_rel (f := fun a => (a.1, hits, a.2)) (g := fun a => (a.1, hits, a.2)) hevict
      (Q := fun p r => p.2.1 = r.2.1 ∧ Same (p.1, p.2.2) (r.1, r.2.2)) fun a b hab => ⟨rfl, hab⟩
    simp only [Option.map_map] at hmap
    exact hmap
  | remove id =>
    obtain ⟨rfl, log, q, h, rfl⟩ := h
    show Option.Rel _ (some ((LRU_K_remove s id).1, hits, vs)) (some ((Lru.LRU_remove { s.cache with q := q } id).1, hits, vs))
    unfold Lru.LRU_remove Fifo.FIFO_remove
    cases ho : s.cache.q.lookup id with
    | none =>
      simp only [LRU_K_remove, ho, (h.lookup id).trans ho]
      exact .some ⟨rfl, rfl, log, q, h, rfl⟩
    | some o =>
      simp only [remove_spec h.inv ho, (h.lookup id).trans ho]
      exact .some ⟨rfl, rfl, log, _, h.drop ho, rfl⟩

/-! ## The laws of LRU-K -/

/-- Each resident is in the list or in the set, once; the maps lead there, and the histories are those of the residents. -/
structure Consistent (s : State) (log : Log) : Prop where
  once : (s.fifo.items () ++ s.pq.map (·.2)).Perm s.cache.q.keys
  fifo_map : ∀ x a, s.fifo.slot x = some ((), a) ↔ (a, x) ∈ s.fifo.nodes ()
  pq_map : ∀ x t, s.pq_map x = some t ↔ (t, x) ∈ s.pq
  history : ∀ x, s.history x = if x ∈ s.cache.q then some (window s.k (log x)) else none

theorem Inv.consistent (h : Inv s log) : Consistent s log := by
  have hpq {x : ObjId} {t : Int} : s.pq_map x = some t ↔ (t, x) ∈ s.pq := (h.mem_pq (a := (t, x))).symm
  have hold {x : ObjId} : x ∈ s.pq.map (·.2) ↔ x ∈ s.cache.q ∧ s.k ≤ (log x).length := by
    simp only [mem_map, ← hpq, h.old]
    simp
  refine ⟨?_, fun x a => h.located.slot x () a, fun x t => hpq, h.history⟩
  rw [perm_ext_iff_of_nodup _ s.cache.q.keys_nodup]
  · intro x
    rw [mem_append, h.mem_items, hold, ← and_or_left]
    exact and_iff_left (lt_or_ge _ _)
  · apply (h.located.items_nodup ()).append
    · apply h.pq.nodup.map_on
      rintro ⟨t, x⟩ ha ⟨t', y⟩ hb rfl
      rw [Option.some.inj ((hpq.2 ha).symm.trans (hpq.2 hb))]
    · intro x hx hx'
      have hlt := (h.mem_items.1 hx).2
      have hge := (hold.1 hx').2
      omega

/-- What a call does to `s`. The victims go before all other residents. -/
def Effect (log : Log) (s t : State) : Call → Prop
  | .get req => (req.obj_id ∈ s.cache.q ∧ LRU_K_find (ops.count_req s) req = (t, true)) ∨
      (req.obj_id ∉ s.cache.q ∧ ∃ l u, Trail (Evicts log) (ops.count_req s) l u ∧ (t = u ∨ t = LRU_K_insert u req))
  | .evict => ∃ v, Evicts log s v t
  | .remove id => ∀ x, x ∈ t.cache.q ↔ x ∈ s.cache.q ∧ x ≠ id

theorem call_spec (h : Inv s log) {c : Call} (hc : c = .evict → s.cache.n_obj ≠ 0) :
    ∃ t, call s c = some t ∧ Inv t (note s t log c) ∧ Effect log s t c := by
  cases c with
  | get req =>
    obtain ⟨t, hit, hget, hinv, hres, hmiss⟩ := get_spec h req
    refine ⟨t, by simp [call, hget], hinv, ?_⟩
    cases hit with
    | true =>
      have hx := hres.1 rfl
      refine .inl ⟨hx, ?_⟩
      exact Option.some.inj (CacheOps.cache_get_base_found hget)
    | false => exact .inr ⟨by simpa using hres, hmiss rfl⟩
  | evict =>
    have hne : s.cache.q.entries ≠ [] := by
      intro hempty
      have hn := h.cache.n_obj
      rw [hempty] at hn
      exact hc rfl hn
    obtain ⟨v, o, ho, hv⟩ := evict_spec h hne
    exact ⟨_, hv.evict, drop_spec h ho, v, hv⟩
  | remove id =>
    cases ho : s.cache.q.lookup id with
    | none =>
      refine ⟨s, by simp [call, LRU_K_remove, ho], h, fun x => ⟨fun hx => ⟨hx, ?_⟩, And.left⟩⟩
      rintro rfl
      exact lookup_eq_none.1 ho hx
    | some o => exact ⟨drop s id o, by simp [call, remove_spec h ho], drop_spec h ho, fun x => mem_erase.trans and_comm⟩

theorem init_inv (cache_size : Nat) (md : Bool) {k : Nat} (hk : 1 ≤ k) :
    Inv (LRU_K_init cache_size md k) fun _ => [] := by
  refine ⟨Fifo.init_inv _ _, hk, ?_, fun _ => rfl, NodeLists.located_empty, ?_, .nil, fun _ => rfl, indexed_empty _⟩
  · constructor <;> simp [LRU_K_init]
  · simp [LRU_K_init]

/-- LRU has as much metadata for an object here as LRU-K. -/
theorem LRU_K_law (cache_size : Nat) (md : Bool) {k : Nat} (hk : 1 ≤ k) :
    (∀ s log, Reach noted (fun p c => c = .evict → p.1.cache.n_obj ≠ 0)
        (LRU_K_init cache_size md k, fun _ => []) (s, log) →
      Consistent s log ∧ ∀ c, (c = .evict → s.cache.n_obj ≠ 0) → ∃ t, call s c = some t ∧ Effect log s t c) ∧
    (k = 1 → ∀ calls, Option.Rel (fun p r => p.2 = r.2 ∧ ∀ x, x ∈ p.1.cache.q ↔ x ∈ r.1.q)
      (runs lru_k_answer (LRU_K_init cache_size md k, [], []) calls)
      (runs lru_answer ({ Lru.LRU_init cache_size md with
        obj_md_size := if md then 24 else 0 }, [], []) calls)) := by
  constructor
  · intro s log h
    have hinv : Inv (s, log).1 (s, log).2 := by
      apply Reach.inv (fun p => Inv p.1 p.2) ?_ (init_inv cache_size md hk) h
      rintro ⟨s, log⟩ c p hinv hc hstep
      obtain ⟨t, ht, hinv', -⟩ := call_spec hinv hc
      simp only [noted, ht, Option.map_some, Option.some.injEq] at hstep
      exact hstep ▸ hinv'
    refine ⟨hinv.consistent, fun c hc => ?_⟩
    obtain ⟨t, ht, -, heffect⟩ := call_spec hinv hc
    exact ⟨t, ht, heffect⟩
  · rintro rfl calls
    have hinv := init_inv cache_size md hk
    have hstart : Twin (fun _ => []) (LRU_K_init cache_size md 1) ∅ := ⟨hinv, rfl, fun _ => rfl, .nil⟩
    refine rel_imp (runs_rel answer_rel calls ⟨rfl, rfl, _, _, hstart, ?_⟩) ?_
    · cases md <;> rfl
    · rintro ⟨s, hits, vs⟩ ⟨d, hits', vs'⟩ ⟨rfl, rfl, log, q, h, rfl⟩
      exact ⟨rfl, fun x => h.mem.symm⟩

/-- Object 1 has been read twice and waits in the ordered set. The fresh ones go before it, 2 first. -/
theorem LRU_K_law_of_four_gets :
    ∃ s log t, Reach noted (fun p c => c = .evict → p.1.cache.n_obj ≠ 0) (LRU_K_init 3 false 2, fun _ => []) (s, log) ∧
      s.fifo.items () = [2, 3] ∧ s.pq.map (·.2) = [1] ∧ [1, 2, 3].map log = [[1, 2], [3], [4]] ∧
      Consistent s log ∧ Evicts log s 2 t := by
  obtain ⟨⟨s, log⟩, hs, hfifo, hpq, hlog, hn, hto_evict⟩ : ∃ p, runs noted (LRU_K_init 3 false 2, fun _ => [])
      [.get { obj_id := 1 }, .get { obj_id := 1 }, .get { obj_id := 2 }, .get { obj_id := 3 }] = some p ∧
        p.1.fifo.items () = [2, 3] ∧ p.1.pq.map (·.2) = [1] ∧ [1, 2, 3].map p.2 = [[1, 2], [3], [4]] ∧
        p.1.cache.n_obj ≠ 0 ∧ LRU_K_to_evict p.1 = some 2 := by decide +kernel
  have hreach : Reach noted (fun p c => c = .evict → p.1.cache.n_obj ≠ 0) _ (s, log) := .of_runs (by simp) hs
  obtain ⟨hcons, hnext⟩ := (LRU_K_law 3 false (by decide)).1 s log hreach
  obtain ⟨t, -, v, hv⟩ := hnext .evict fun _ => hn
  obtain rfl : 2 = v := Option.some.inj (hto_evict.symm.trans hv.to_evict)
  exact ⟨s, log, t, hreach, hfifo, hpq, hlog, hcons, hv⟩

/-- With the metadata, LRU has room for both objects and LRU-K for one only. -/
theorem metadata_differs : ∃ p r,
    runs lru_k_answer (LRU_K_init 100 true 1, [], []) [.get ⟨1, 30, 1, -2, 0⟩, .get ⟨2, 30, 1, -2, 0⟩,
      .get ⟨1, 30, 1, -2, 0⟩] = some p ∧
    runs lru_answer (Lru.LRU_init 100 true, [], []) [.get ⟨1, 30, 1, -2, 0⟩, .get ⟨2, 30, 1, -2, 0⟩, .get ⟨1, 30, 1, -2, 0⟩] = some r ∧
    p.2.1 = [false, false, false] ∧ r.2.1 = [false, false, true] :=
  ⟨_, _, rfl, rfl, rfl, rfl⟩

end CacheSim.LruK
