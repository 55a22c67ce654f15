import CacheSim.Lirs.Removal

/-!
# Blocks of size one, with their metadata

What a block is charged is many times its size, and so the cache is full long before the LIR blocks
reach their limit: all blocks are LIR ones.
-/

namespace CacheSim.Lirs

open Lib List Option AList Table

variable {s : State} {req : Request}

structure Charged (s : State) : Prop where
  md : s.obj_md_size = 16
  large : 200 ≤ s.cache_size
  hirs_pos : 1 ≤ s.hirs_limit
  hirs_le : s.hirs_limit ≤ s.lirs_limit
  limits : s.hirs_limit + s.lirs_limit = s.cache_size
  idle : s.inflight = ∅
  blocks : ∀ e ∈ s.LRU_s.q.entries, e.2 = ⟨1, ⟨true, true⟩⟩
  queue : s.LRU_q.q = ∅
  q_obj : s.LRU_q.n_obj = 0
  nh : s.LRU_nh.q = ∅
  nonresident : s.nonresident = 0
  lirs : s.lirs_count = s.LRU_s.q.entries.length
  hirs : s.hirs_count = 0
  n_obj : s.n_obj = s.LRU_s.q.entries.length
  occupied : s.occupied_byte = 17 * s.LRU_s.q.entries.length
  fits : s.occupied_byte ≤ s.cache_size

theorem LIRS_prune_of_lir (h : ∀ e ∈ s.LRU_s.q.entries, e.2 = ⟨1, ⟨true, true⟩⟩) : LIRS_prune s = some s := by
  apply whileLoop_stop
  rw [isSome_eq_false_iff, isNone_iff_eq_none]
  by_contra hsome
  obtain ⟨e, he⟩ := ne_none_iff_exists'.1 hsome
  obtain ⟨top, l, hs, -, hlir⟩ := obj_to_remove_some he
  rw [h e (by simp [hs])] at hlir
  cases hlir

def in_Q (s : State) (x : ObjId) : State :=
  { s with
    lirs_count := s.lirs_count - 1
    LRU_s := s.LRU_s.cache_remove_obj_base x ⟨1, ⟨true, true⟩⟩
    LRU_q := s.LRU_q.LRU_insert { obj_id := x, obj_size := 1 } ⟨false, true⟩
    hirs_count := s.hirs_count + 1
    occupied_byte := s.occupied_byte - (1 + s.obj_md_size) + (1 + s.obj_md_size)
    n_obj := s.n_obj - 1 + 1 }

def out_of_Q (s : State) (x : ObjId) : State :=
  { s with
    hirs_count := s.hirs_count - 1
    LRU_q := s.LRU_q.cache_remove_obj_base x ⟨1, ⟨false, true⟩⟩
    occupied_byte := s.occupied_byte - (1 + s.obj_md_size)
    n_obj := s.n_obj - 1 }

variable {l : List Block} {x : ObjId}

section

variable (h : Charged s)
include h

section

variable (hs : s.LRU_s.q.entries = l ++ [⟨x, ⟨1, ⟨true, true⟩⟩⟩])
include hs

theorem Charged.blocks_of_init :
    ∀ e ∈ (s.LRU_s.q.erase x).entries, e.2 = ⟨1, ⟨true, true⟩⟩ := by
  intro e he
  rw [(Lru.LRU_evict_last hs).2.2] at he
  exact h.blocks e (by simp [hs, he])

theorem Charged.evictLIR : Lirs.evictLIR s = some (in_Q s x) := by
  obtain ⟨hto, hout, -⟩ := Lru.LRU_evict_last hs
  have hroom : ∀ v : State, v.hirs_count = s.hirs_count → v.hirs_limit = s.hirs_limit → make_room 1 v = some v := by
    intro v hcount hlimit
    have hpos := h.hirs_pos
    have hzero := h.hirs
    have hstop : (true && decide (v.hirs_count + 1 > v.hirs_limit)) = false := by
      exact decide_eq_false (by omega)
    rw [make_room, whileLoop_stop (fun w : State × Bool => w.2 && decide (w.1.hirs_count + 1 > w.1.hirs_limit))
      (fun w => evictHIR w.1) _ (v, true) hstop]
    rfl
  have hfit : (1 : Int) ≤ s.hirs_limit := h.hirs_pos
  have hsame := hroom { s with
    lirs_count := s.lirs_count - 1, LRU_s := s.LRU_s.cache_remove_obj_base x ⟨1, ⟨true, true⟩⟩
    occupied_byte := s.occupied_byte - (1 + s.obj_md_size), n_obj := s.n_obj - 1 } rfl rfl
  simp only [Lirs.evictLIR, hto, hout, bind_eq_bind, bind_some, demote_to_Q, if_pos hfit]
  rw [hsame]
  exact LIRS_prune_of_lir (h.blocks_of_init hs)

end

theorem Charged.in_Q_last (x : ObjId) : (in_Q s x).LRU_q.q.entries = [] ++ [⟨x, ⟨1, ⟨false, true⟩⟩⟩] := by
  show (s.LRU_q.q.insert x _).entries = _
  rw [h.queue]
  rfl

theorem Charged.evictHIR (x : ObjId) : Lirs.evictHIR (in_Q s x) = some (out_of_Q (in_Q s x) x, true) := by
  obtain ⟨hto, hout, -⟩ := Lru.LRU_evict_last (h.in_Q_last x)
  have hfly : lirs_is_inflight (in_Q s x) x = false := by
    simp [lirs_is_inflight, show (in_Q s x).inflight = ∅ from h.idle]
  have hmark : ∀ v : State, v.LRU_s = (in_Q s x).LRU_s → mark_nonresident v ⟨x, ⟨1, ⟨false, true⟩⟩⟩ = v := by
    intro v hv
    have hlook : v.LRU_s.q.lookup x = none := hv ▸ lookup_erase _ _
    rw [mark_nonresident, hlook]
  have hsame := hmark { in_Q s x with
    hirs_count := (in_Q s x).hirs_count - 1, LRU_q := (in_Q s x).LRU_q.cache_remove_obj_base x ⟨1, ⟨false, true⟩⟩ } rfl
  simp only [Lirs.evictHIR, hto, hout, bind_eq_bind, bind_some, hfly, Bool.false_eq_true]
  rw [hsame]
  rfl

section

variable (hs : s.LRU_s.q.entries = l ++ [⟨x, ⟨1, ⟨true, true⟩⟩⟩])
include hs

theorem Charged.out_of_Q :
    Charged (Lirs.out_of_Q (in_Q s x) x) := by
  have hl : (s.LRU_s.q.erase x).entries = l := (Lru.LRU_evict_last hs).2.2
  have hlen : (s.LRU_s.q.entries.length : Int) = l.length + 1 := by
    rw [hs, length_append, length_singleton]
    rfl
  have hmd := h.md
  have hocc := h.occupied
  have hfits := h.fits
  refine ⟨h.md, h.large, h.hirs_pos, h.hirs_le, h.limits, h.idle, h.blocks_of_init hs, ?_, ?_, h.nh, h.nonresident, ?_, ?_, ?_, ?_, ?_⟩
  · exact ext (Lru.LRU_evict_last (h.in_Q_last x)).2.2
  · show s.LRU_q.n_obj + 1 - 1 = 0
    rw [h.q_obj]
    rfl
  · show s.lirs_count - 1 = ((s.LRU_s.q.erase x).entries.length : Int)
    rw [hl, h.lirs]
    omega
  · show s.hirs_count + 1 - 1 = 0
    rw [h.hirs]
    rfl
  · show s.n_obj - 1 + 1 - 1 = ((s.LRU_s.q.erase x).entries.length : Int)
    rw [hl, h.n_obj]
    omega
  · show s.occupied_byte - (1 + s.obj_md_size) + (1 + s.obj_md_size) - (1 + s.obj_md_size) =
      17 * ((s.LRU_s.q.erase x).entries.length : Int)
    rw [hl]
    omega
  · show s.occupied_byte - (1 + s.obj_md_size) + (1 + s.obj_md_size) - (1 + s.obj_md_size) ≤ s.cache_size
    omega

theorem Charged.force_demote :
    Lirs.force_demote s.occupied_byte (s, none) = some (Lirs.out_of_Q (in_Q s x) x, some true) := by
  have hocc : ¬ (in_Q s x).occupied_byte < s.occupied_byte := by
    rw [show (in_Q s x).occupied_byte = s.occupied_byte from Int.sub_add_cancel _ _]
    exact lt_irrefl _
  have hn : (in_Q s x).LRU_q.n_obj > 0 := by
    show s.LRU_q.n_obj + 1 > 0
    rw [h.q_obj]
    decide
  simp only [Lirs.force_demote, h.evictLIR hs, bind_eq_bind, bind_some, if_neg hocc, if_pos hn, h.evictHIR]
  rfl

end

theorem Charged.lirs_room : s.lirs_count + 1 ≤ s.lirs_limit := by
  have hlarge := h.large
  have hle := h.hirs_le
  have hlimits := h.limits
  have hocc := h.occupied
  have hfits := h.fits
  have hlirs := h.lirs
  omega

theorem Charged.notMem_Q (x : ObjId) : s.LRU_q.q.lookup x = none := by
  rw [h.queue]
  rfl

theorem Charged.evict (hreq : req.obj_size = 1) (hx : s.LRU_s.q.lookup req.obj_id = none)
    (hs : s.LRU_s.q.entries = l ++ [⟨x, ⟨1, ⟨true, true⟩⟩⟩]) : LIRS_evict s req = some (Lirs.out_of_Q (in_Q s x) x) := by
  have hroom := h.lirs_room
  have hnot : ¬ (s.lirs_count + req.obj_size > s.lirs_limit ∧ s.hirs_count + req.obj_size > s.hirs_limit) := by omega
  have honce : LIRS_evict_once s req = some (s, false) := by
    simp only [LIRS_evict_once, hx, h.notMem_Q, if_neg hnot]
  have hmore : ((s, none) : State × Option Bool).2.isNone = true := rfl
  have hrounds : whileLoop (fun w => w.2.isNone) (evict_round req s.occupied_byte) (s.LRU_s.q.entries.length + 1) (s, none) =
      some (s, some false) := by
    rw [whileLoop, if_pos hmore, evict_round_stuck honce]
    exact whileLoop_stop _ _ _ _ rfl
  have hforce : LIRS_force_evict_one s = some (Lirs.out_of_Q (in_Q s x) x, true) := by
    have hlen : s.LRU_s.q.entries.length = l.length + 1 := by rw [hs, length_append, length_singleton]
    have hcount : ((none : Option Bool).isNone && decide (s.lirs_count > 0)) = true := by
      rw [h.lirs, hlen]
      simp
    unfold LIRS_force_evict_one
    rw [h.q_obj, if_neg (lt_irrefl _), hlen, whileLoop, if_pos hcount, h.force_demote hs, bind_some,
      whileLoop_stop _ _ _ _ rfl]
    rfl
  simp only [LIRS_evict, hrounds, bind_eq_bind, bind_some, hforce]
  rfl

/-! ## A get -/

theorem Charged.find_hit {o : FifoObj Md} (hx : s.LRU_s.q.lookup req.obj_id = some o) :
    ∃ s', LIRS_find s req true = some (s', true) ∧ Charged s' := by
  have ho : o = ⟨1, ⟨true, true⟩⟩ := h.blocks ⟨req.obj_id, o⟩ (mem_entries_of_lookup hx)
  have hblocks : ∀ e ∈ (s.LRU_s.q.insert req.obj_id o).entries, e.2 = ⟨1, ⟨true, true⟩⟩ := by
    intro e he
    apply h.blocks ⟨e.1, e.2⟩
    apply mem_entries_of_lookup
    rw [← Lru.lookup_move_to_head hx]
    exact lookup_of_mem_entries he
  have hlen : (s.LRU_s.q.insert req.obj_id o).entries.length = s.LRU_s.q.entries.length := (perm_erase hx).length_eq.symm
  refine ⟨{ s with LRU_s := { s.LRU_s with q := s.LRU_s.q.insert req.obj_id o } }, ?_, ?_⟩
  · simp only [LIRS_find, Lru.LRU_find_hit hx, Lru.LRU_find_miss (h.notMem_Q _), show o.md.is_LIR = true by rw [ho]]
    exact congrArg (Option.map _) (LIRS_prune_of_lir hblocks)
  · refine { h with blocks := hblocks, lirs := ?_, n_obj := ?_, occupied := ?_ }
    · rw [h.lirs, hlen]
    · rw [h.n_obj, hlen]
    · rw [h.occupied, hlen]

theorem Charged.insert (hreq : req.obj_size = 1) (hx : s.LRU_s.q.lookup req.obj_id = none)
    (hroom : s.occupied_byte + 17 ≤ s.cache_size) : Charged (LIRS_insert s req) := by
  have hlir : s.lirs_count + req.obj_size ≤ s.lirs_limit := hreq ▸ h.lirs_room
  have hq : (s.LRU_s.LRU_insert req ⟨true, true⟩).q.entries = ⟨req.obj_id, ⟨1, ⟨true, true⟩⟩⟩ :: s.LRU_s.q.entries := by
    show (s.LRU_s.q.insert req.obj_id _).entries = _
    rw [entries_insert_of_notMem (lookup_eq_none.1 hx), hreq]
  have hlen : ((s.LRU_s.LRU_insert req ⟨true, true⟩).q.entries.length : Int) = s.LRU_s.q.entries.length + 1 := by
    rw [hq, length_cons]
    rfl
  have hmd := h.md
  have hocc := h.occupied
  simp only [LIRS_insert, hx, h.notMem_Q, if_pos hlir]
  refine { h with blocks := ?_, lirs := ?_, n_obj := ?_, occupied := ?_, fits := ?_ }
  · intro e he
    have he' : e ∈ (s.LRU_s.LRU_insert req ⟨true, true⟩).q.entries := he
    rw [hq, mem_cons] at he'
    rcases he' with rfl | he'
    · rfl
    · exact h.blocks e he'
  · show s.lirs_count + req.obj_size = _
    rw [h.lirs, hreq]
    exact hlen.symm
  · show s.n_obj + 1 = _
    rw [h.n_obj]
    exact hlen.symm
  · show s.occupied_byte + (req.obj_size + s.obj_md_size) = 17 * ((s.LRU_s.LRU_insert req ⟨true, true⟩).q.entries.length : Int)
    omega
  · show s.occupied_byte + (req.obj_size + s.obj_md_size) ≤ s.cache_size
    omega

theorem Charged.get (hreq : req.obj_size = 1) : ∃ s' hit, LIRS_get s req = some (s', hit) ∧ Charged s' := by
  let Miss : State → Prop := fun t => Charged t ∧ t.LRU_s.q.lookup req.obj_id = none
  have hbase : ∃ t hit, ops.cache_get_base (fun t => t.occupied_byte.toNat) s req = some (t, hit) ∧ Charged t := by
    apply CacheOps.cache_get_base_total Charged Miss Miss Charged (fun t => t.occupied_byte.toNat) (fun _ _ => le_rfl) _ _ _ _ h
    · intro t ht
      have hcounted : Charged { t with n_req := t.n_req + 1 } := { ht with }
      rcases hx : t.LRU_s.q.lookup req.obj_id with _ | o
      · refine ⟨{ t with n_req := t.n_req + 1 }, false, ?_, hcounted, hx⟩
        simp [ops, LIRS_find, Lru.LRU_find_miss hx, Lru.LRU_find_miss (ht.notMem_Q _)]
      · obtain ⟨t', hfind, ht'⟩ := hcounted.find_hit hx
        exact ⟨t', true, hfind, ht'⟩
    · rintro t ⟨ht, hx⟩
      have hmd := ht.md
      have hlarge := ht.large
      have hle := ht.hirs_le
      have hpos := ht.hirs_pos
      have hroom := ht.lirs_room
      refine ⟨t, true, ?_, ht, hx⟩
      simp only [ops, LIRS_can_insert, hx, ht.notMem_Q]
      rw [if_neg (by omega), if_neg (by omega), if_neg (by omega)]
    · rintro t ⟨ht, hx⟩ hfull
      rw [CacheOps.full_for_iff] at hfull
      have hfull' : t.cache_size < t.occupied_byte + req.obj_size + t.obj_md_size := hfull
      have hmd := ht.md
      have hlarge := ht.large
      have hocc := ht.occupied
      rcases eq_nil_or_concat t.LRU_s.q.entries with hnil | ⟨l, ⟨y, o⟩, hs⟩
      · rw [hnil, length_nil] at hocc
        omega
      · have ho : o = ⟨1, ⟨true, true⟩⟩ := ht.blocks ⟨y, o⟩ (by simp [hs])
        subst ho
        rw [concat_eq_append] at hs
        refine ⟨_, ht.evict hreq hx hs, ⟨ht.out_of_Q hs, ?_⟩, ?_⟩
        · show (t.LRU_s.q.erase y).lookup req.obj_id = none
          rw [lookup_eq_none, mem_erase]
          exact fun hmem => lookup_eq_none.1 hx hmem.2
        · show (t.occupied_byte - (1 + t.obj_md_size) + (1 + t.obj_md_size) - (1 + t.obj_md_size)).toNat < t.occupied_byte.toNat
          omega
    · rintro t ⟨ht, hx⟩ hroom
      rw [CacheOps.full_for_false_iff] at hroom
      have hroom' : t.occupied_byte + req.obj_size + t.obj_md_size ≤ t.cache_size := hroom
      have hmd := ht.md
      exact ⟨LIRS_insert t req, rfl, ht.insert hreq hx (by omega)⟩
  obtain ⟨t, hit, hget, ht⟩ := hbase
  have hlimit : limitStack t = some t := by
    apply whileLoop_stop
    simp [Lru.LRU_to_evict, Fifo.FIFO_to_evict, ht.nh]
  refine ⟨t, hit, ?_, ht⟩
  simp only [LIRS_get, hget, bind_eq_bind, bind_some, hlimit]
  rfl

/-! ## Removals -/

theorem Charged.found_iff (id : ObjId) : found s id ↔ ∃ o, s.LRU_s.q.lookup id = some o := by
  unfold found LIRS_find
  simp only [Lru.LRU_find_probe, h.notMem_Q]
  rcases hx : s.LRU_s.q.lookup id with _ | o
  · simp
  · have ho : o = ⟨1, ⟨true, true⟩⟩ := h.blocks ⟨id, o⟩ (mem_entries_of_lookup hx)
    simp [ho]

theorem Charged.not_gone (id : ObjId) : ¬ gone s id := by
  rintro ⟨o, hx, hnr⟩
  have ho : o = ⟨1, ⟨true, true⟩⟩ := h.blocks ⟨id, o⟩ (mem_entries_of_lookup hx)
  rw [ho] at hnr
  cases hnr

theorem Charged.listed : Listed s := by
  refine ⟨∅, fun x => ⟨(fun hx => absurd hx (Finset.notMem_empty x)), fun hx => absurd hx (h.not_gone x)⟩, fun x => ?_, ?_⟩
  · rw [h.nh]
    exact ⟨fun hx => absurd hx (notMem_empty x), fun hx => absurd hx (Finset.notMem_empty x)⟩
  · rw [h.nonresident, Finset.sum_empty]

theorem Charged.LIRS_remove_iff (id : ObjId) :
    (∃ s' res, LIRS_remove s unchanged id = some (s', res) ∧ Removed s id s' res) ↔ ¬ found s id := by
  rcases hx : s.LRU_s.q.lookup id with _ | o
  · have habsent : ¬ found s id := by
      rw [h.found_iff, hx]
      rintro ⟨o, ho⟩
      cases ho
    exact iff_of_true (removed_unknown hx (h.notMem_Q _) h.listed unchanged) habsent
  · have ho : o = ⟨1, ⟨true, true⟩⟩ := h.blocks ⟨id, o⟩ (mem_entries_of_lookup hx)
    subst ho
    have hfound : found s id := (h.found_iff id).2 ⟨_, hx⟩
    refine iff_of_false ?_ (not_not_intro hfound)
    rintro ⟨s', res, hrem, hremoved⟩
    have hocc := hremoved.occupied (hremoved.result.2 hfound)
    have hsize : size_of s id = 1 := by
      unfold size_of
      rw [hx]
    rw [hsize, h.md] at hocc
    simp only [LIRS_remove, hx] at hrem
    obtain ⟨t, hprune, heq⟩ := map_eq_some_iff.1 hrem
    cases heq
    have hleft := LIRS_prune_of_lir (s := { s with
      LRU_s := (s.LRU_s.LRU_remove id).1, lirs_count := s.lirs_count - 1, occupied_byte := s.occupied_byte - 1
      n_obj := s.n_obj - 1 }) (by
        intro e he
        have he' : e ∈ (s.LRU_s.LRU_remove id).1.q.entries := he
        rw [Lru.LRU_remove_q] at he'
        exact h.blocks e ((perm_erase hx).mem_iff.2 (mem_cons_of_mem _ he')))
    cases hprune.symm.trans hleft
    have hocc' : s.occupied_byte - 1 = s.occupied_byte - (1 + 16) := hocc
    omega

end

variable {cache_size : Nat}

section

variable (hcs : 200 ≤ cache_size)
include hcs

theorem init_charged : Charged (LIRS_init cache_size true) := by
  let P : Setup := Setup.of_init (fun _ => 1) (fun _ => Int.one_pos) cache_size (by omega)
  have hlarge : (200 : Int) ≤ cache_size := by exact_mod_cast hcs
  refine ⟨rfl, hlarge, P.hirs_pos, P.hirs_le, P.limits, rfl, (fun e he => nomatch he), rfl, rfl, rfl, rfl, rfl, rfl, rfl, rfl, ?_⟩
  show (0 : Int) ≤ cache_size
  omega

theorem reach_charged
    (hr : Reach get_step (fun _ req => req.obj_size = 1) (LIRS_init cache_size true) s) : Charged s := by
  apply Reach.inv Charged _ (init_charged hcs) hr
  intro t req t' ht hreq hstep
  obtain ⟨v, hit, hget, hv⟩ := ht.get hreq
  simp only [get_step, hget, map_some, some.injEq] at hstep
  exact hstep ▸ hv

theorem reach_units
    (hr : Reach get_step (fun _ req => req.obj_size = 1) (LIRS_init cache_size false) s) :
    Settled (Setup.of_init (fun _ => 1) (fun _ => Int.one_pos) cache_size (by omega)) s := by
  apply Reach.inv (Settled _) _ ⟨init_good _ _ _, init_ledger _ _ _⟩ hr
  intro t req t' ht hreq hstep
  have htwo : (2 : Int) ≤ hirs_limit_of cache_size := by exact_mod_cast two_le_hirs_limit hcs
  have hroom : Room t req := room_of_units ht.sound (fun _ => rfl) htwo hreq
  obtain ⟨v, hit, hget, hv⟩ := ht.get hreq hroom
  simp only [get_step, hget, map_some, some.injEq] at hstep
  exact hstep ▸ hv

end

/-- A removal does what is claimed, whatever freed objects read as, if and only if the block is in neither stack.
If they read as before, it does so if and only if the block is not a non-resident one of `S`, and is not a
resident one that is charged for its metadata. -/
theorem removals_undone_iff {cache_size : Nat} (hcs : 200 ≤ cache_size) (md : Bool)
    (hr : Reach get_step (fun _ req => req.obj_size = 1) (LIRS_init cache_size md) s) (id : ObjId) :
    ((∀ freed, ∃ s' res, LIRS_remove s freed id = some (s', res) ∧ Removed s id s' res) ↔ ¬ found s id ∧ ¬ gone s id) ∧
    ((∃ s' res, LIRS_remove s unchanged id = some (s', res) ∧ Removed s id s' res) ↔
      ¬ gone s id ∧ (found s id → s.obj_md_size = 0)) := by
  cases md with
  | true =>
    have hs := reach_charged hcs hr
    rw [hs.LIRS_remove_iff]
    have hmd : s.obj_md_size ≠ 0 := by
      rw [hs.md]
      decide
    refine ⟨LIRS_remove_any_iff ?_ hs.listed (by simp [hs.md]) fun _ => hs.not_gone id, ?_⟩
    · simp [hs.notMem_Q]
    · exact ⟨fun habsent => ⟨hs.not_gone id, fun hx => absurd hx habsent⟩, fun h hx => hmd (h.2 hx)⟩
  | false =>
    have hs := (reach_units hcs hr).sound
    have hsame := LIRS_remove_iff hs id
    rw [hsame]
    refine ⟨LIRS_remove_any_iff ?_ hs.listed hs.frame.no_md.ge hsame.1, ?_⟩
    · intro q hq
      rw [(hs.tables.Q_rec id q hq).1]
    · exact ⟨fun hgone => ⟨hgone, fun _ => hs.frame.no_md⟩, And.left⟩

def full_run : List Request := (List.range 201).map fun i => { obj_id := i + 1 }

/-- Block 1 is in `S`, 201 in `Q`, 199 is non-resident, and 202 is unknown. -/
theorem removals_undone_iff_of_full_run : ∃ s, runs get_step (LIRS_init 200 false) full_run = some s ∧
    (∃ s' res, LIRS_remove s unchanged 1 = some (s', res) ∧ Removed s 1 s' res) ∧
    (¬ ∃ s' res, LIRS_remove s unchanged 199 = some (s', res) ∧ Removed s 199 s' res) ∧
    (¬ ∀ freed, ∃ s' res, LIRS_remove s freed 201 = some (s', res) ∧ Removed s 201 s' res) ∧
    ∀ freed, ∃ s' res, LIRS_remove s freed 202 = some (s', res) ∧ Removed s 202 s' res := by
  obtain ⟨s, hs, hmd, hone, hgone, hfound, habsent, hnot⟩ : ∃ s, runs get_step (LIRS_init 200 false) full_run = some s ∧
      s.obj_md_size = 0 ∧ ¬ gone s 1 ∧
      gone s 199 ∧ found s 201 ∧ ¬ found s 202 ∧ ¬ gone s 202 := by decide +kernel
  have hreach : Reach get_step (fun _ req => req.obj_size = 1) (LIRS_init 200 false) s :=
    .of_runs (by simp [full_run]) hs
  have hiff := removals_undone_iff (by decide) false hreach
  refine ⟨s, hs, (hiff 1).2.2 ⟨hone, fun _ => hmd⟩, ?_, ?_, (hiff 202).1.2 ⟨habsent, hnot⟩⟩
  · rw [(hiff 199).2]
    exact fun h => h.1 hgone
  · rw [(hiff 201).1]
    exact fun h => h.1 hfound

/-- Block 1 is charged 17 bytes, and its removal gives back one. -/
theorem not_removals_undone : ¬ ∀ cache_size : Nat, 200 ≤ cache_size → ∀ md : Bool,
    ∀ reqs : List Request, (∀ req ∈ reqs, req.obj_size = 1) →
    ∀ s, runs get_step (LIRS_init cache_size md) reqs = some s →
    ∀ id, ∃ s' res, LIRS_remove s unchanged id = some (s', res) ∧ Removed s id s' res := by
  intro hclaim
  obtain ⟨s, hs, hocc, hsize, hmd, ⟨u, _⟩, hrem, rfl, hleft⟩ : ∃ s, runs get_step (LIRS_init 200 true) [{ obj_id := 1 }] = some s ∧
      s.occupied_byte = 17 ∧ size_of s 1 = 1 ∧ s.obj_md_size = 16 ∧
        ∃ r, LIRS_remove s unchanged 1 = some r ∧ r.2 = true ∧ r.1.occupied_byte = 16 := by decide +kernel
  obtain ⟨s', res, hrem', hremoved⟩ := hclaim 200 le_rfl true _ (by simp) s hs 1
  cases hrem.symm.trans hrem'
  have hclaimed := hremoved.occupied rfl
  rw [hleft, hocc, hsize, hmd] at hclaimed
  omega

end CacheSim.Lirs
