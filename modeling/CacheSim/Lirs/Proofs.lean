import CacheSim.Lirs.Gets

/-!
# Every get keeps the blocks of LIRS accounted for, if a hit in `Q` finds room
-/

namespace CacheSim.Lirs

open Lib List Option AList Table Setup

variable {P : Setup} {s : State} {x : ObjId}

/-! ## Room for a hit in `Q` -/

/-- When a hit in `Q` demotes LIR blocks, these and the block that was hit fit into `Q` together. -/
def Room (s : State) (req : Request) : Prop :=
  req.obj_id ∈ s.LRU_q.q → req.obj_id ∉ s.LRU_s.q →
    req.obj_size + demoted s.lirs_limit
      ((s.LRU_s.q.entries.reverse.filter (·.2.md.is_LIR)).map (·.2.obj_size)) (s.lirs_count + req.obj_size) ≤ s.hirs_limit

instance (s : State) (req : Request) : Decidable (Room s req) :=
  inferInstanceAs (Decidable (req.obj_id ∈ s.LRU_q.q.keys → ¬ req.obj_id ∈ s.LRU_s.q.keys → _ ≤ s.hirs_limit))

variable {o : FifoObj Md}

theorem bottom_erase_LIR (h : Good P s) (hx : s.LRU_s.q.lookup x = some o) (hhir : o.md.is_LIR = false) :
    bottom_LIR (s.LRU_s.q.erase x).entries = true := by
  obtain ⟨l, y, hl⟩ := h.bottom_erase hx hhir
  exact bottom_of_stack (S := { s.LRU_s with q := s.LRU_s.q.erase x }) hl

variable {req : Request}

theorem Room.canGet (h : Good P s) (hreq : req.obj_size = P.sz req.obj_id) (hroom : Room s req) : CanGet s req := by
  unfold CanGet
  rcases hS : s.LRU_s.q.lookup req.obj_id with _ | o
  · rcases hQ : s.LRU_q.q.lookup req.obj_id with _ | q
    · trivial
    · intro _
      refine ⟨?_, ?_⟩
      · rcases h.bottom with ⟨-, hnil⟩ | ⟨l, y, hl⟩
        · have hmem := AList.mem_keys.1 (mem_of_lookup hQ)
          rw [hnil] at hmem
          cases hmem
        · exact bottom_of_stack hl
      · rw [show q.obj_size = req.obj_size by rw [(h.core.tables.Q_rec _ q hQ).1, hreq]]
        exact hroom (mem_of_lookup hQ) (lookup_eq_none.1 hS)
  · obtain ⟨hsize, hsz, -⟩ := h.core.tables.S_rec _ o hS
    dsimp only
    split_ifs with hlir hin
    · intro _
      exact bottom_erase_LIR h hS (Bool.eq_false_iff.2 hlir)
    · intro _
      refine .inr ⟨bottom_erase_LIR h hS (Bool.eq_false_iff.2 hlir), ?_⟩
      have hle := P.hirs_le
      have hlim := P.limits
      rw [LIR_sizes_eq h.core, HIR_sizes_eq h.core]
      apply clears_of_le
      · intro n hn
        obtain ⟨y, hy, rfl⟩ := mem_map.1 hn
        obtain ⟨b, hb, rfl⟩ := mem_map.1 (mem_reverse.1 hy)
        obtain ⟨e, he, rfl⟩ := mem_map.1 (mem_filter.1 hb).1
        rw [h.core.frame.hirs_limit]
        exact (h.core.tables.S_rec e.1 e.2 (lookup_of_mem_entries he)).2.1
      · rw [h.core.frame.lirs_limit]
        omega
      · rw [h.core.frame.hirs_limit, h.core.frame.cache_size]
        omega
      · rw [show (s.LRU_q.q.keys.reverse.map P.sz).sum = P.total s.LRU_q.q.keys from P.total_perm (reverse_perm _),
          ← h.core.counts.hirs, h.core.frame.hirs_limit]
        exact h.core.counts.hirs_fit

structure Settled (P : Setup) (s : State) : Prop where
  good : Good P s
  ledger : Ledger P s

theorem Settled.sound (h : Settled P s) : Sound P none s := ⟨h.good.core, h.ledger⟩

theorem Settled.get (h : Settled P s) (hreq : req.obj_size = P.sz req.obj_id) (hroom : Room s req) :
    ∃ s' hit, LIRS_get s req = some (s', hit) ∧ Settled P s' := by
  obtain ⟨s', hit, hget, hsound, hgood⟩ := LIRS_get_spec h.sound (fun _ _ => hreq) (hroom.canGet h.good hreq)
  exact ⟨s', hit, hget, hgood h.good, hsound.toLedger⟩

/-! ## A hit in `Q` that finds no room -/

theorem before_unique {l1 l2 r1 r2 : List ObjId} (h : l1 ++ x :: r1 = l2 ++ x :: r2) (hnodup : (l2 ++ x :: r2).Nodup) :
    l1 = l2 := by
  have hlen : ∀ {l r : List ObjId}, (l ++ x :: r).Nodup → (l ++ x :: r).idxOf x = l.length := by
    intro l r hl
    have hnot : x ∉ l := fun hx => (nodup_append.1 hl).2.2 x hx x (by simp) rfl
    rw [idxOf_append_of_notMem hnot, idxOf_cons_self, Nat.add_zero]
  have h1 := hlen (h ▸ hnodup)
  rw [h, hlen hnodup] at h1
  exact (append_inj h h1.symm).1

def Pushed (P : Setup) (x : ObjId) (s : State) : Prop :=
  x ∉ (stack s.LRU_s).map (·.1) ∧ (x ∉ s.LRU_q.q.keys ∨ ∃ young old, s.LRU_q.q.keys = young ++ x :: old ∧
    P.hirs_limit < P.total young + P.sz x +
      demoted P.lirs_limit ((lirs (stack s.LRU_s)).reverse.map P.sz) (s.lirs_count + P.sz x))

theorem Pushed.step {t t' : State} {b : ObjId} (ht : Core P none t) (ht' : Core P none t')
    (hfull : t.lirs_count + P.sz x > P.lirs_limit) (hd : Demotes P b t t') (h : Pushed P x t) : Pushed P x t' := by
  obtain ⟨haway, hq⟩ := h
  refine ⟨fun hx => haway (hd.ids x hx), ?_⟩
  obtain ⟨kept, hkept, htrim⟩ := hd.queue
  rw [hkept]
  by_cases hx : x ∈ kept
  · rcases hq with hnot | ⟨young, old, hkeys, hpush⟩
    · exact absurd (htrim.isPrefix.mem hx) hnot
    right
    obtain ⟨rest, hrest⟩ := htrim.isPrefix
    obtain ⟨k1, k2, rfl⟩ := append_of_mem hx
    -- the block stands in `Q` once, and so the same blocks are before it
    have hnodup : (young ++ x :: old).Nodup := hkeys ▸ t.LRU_q.q.nodupKeys
    rw [hkeys, append_assoc, cons_append] at hrest
    have hyoung : k1 = young := before_unique hrest hnodup
    refine ⟨b :: young, k2, by rw [hyoung, cons_append], ?_⟩
    have hcount := ht.counts.lirs
    have hcount' := ht'.counts.lirs
    rw [hd.lirs, total_append, total_cons, total_nil] at hcount
    rw [hd.lirs, reverse_append, reverse_singleton, singleton_append, map_cons, demoted,
      if_pos hfull, show t.lirs_count + P.sz x - P.sz b = t'.lirs_count + P.sz x by omega] at hpush
    rw [total_cons]
    omega
  · left
    rw [mem_cons, not_or]
    refine ⟨?_, hx⟩
    rintro rfl
    apply haway
    have hmem : x ∈ lirs (stack t.LRU_s) := by
      rw [hd.lirs]
      simp
    obtain ⟨a, ha, rfl⟩ := mem_map.1 hmem
    exact mem_map_of_mem (mem_filter.1 ha).1

variable {s' : State}

theorem limitStack_keeps (hx : s.LRU_s.q.lookup x = some o) (hN : x ∉ s.LRU_nh.q)
    (hrun : limitStack s = some s') : s'.LRU_s.q.lookup x = some o ∧ s'.LRU_q = s.LRU_q := by
  let I : State → Prop := fun t => t.LRU_s.q.lookup x = some o ∧ t.LRU_q = s.LRU_q ∧ x ∉ t.LRU_nh.q
  have hbody : ∀ t t', I t → (t.LRU_nh.LRU_to_evict.isSome && decide (t.LRU_s.occupied_byte > 2 * t.cache_size)) = true →
      limitStack_step t = some t' → I t' := by
    rintro t t' ⟨ht, hQ, hnot⟩ - hstep
    simp only [limitStack_step, Lru.LRU_evict, Fifo.FIFO_evict, bind_eq_bind, bind_eq_some_iff] at hstep
    obtain ⟨e, hto, N', ⟨e', hto', hN'⟩, hstep⟩ := hstep
    cases (hto.symm.trans hto' : some e = some e')
    cases hN'
    cases hstep
    have hne : x ≠ e.1 := by
      rintro rfl
      exact hnot (mem_of_lookup (Fifo.lookup_to_evict hto))
    refine ⟨?_, hQ, fun hmem => hnot (mem_erase.1 hmem).2⟩
    rw [Lru.LRU_remove_q, lookup_erase_ne hne]
    exact ht
  obtain ⟨⟨hS, hQ, -⟩, -⟩ := whileLoop_inv I hbody _ _ _ ⟨hx, rfl, hN⟩ hrun
  exact ⟨hS, hQ⟩

theorem LIRS_get_pushed (h : Settled P s) (hreq : req.obj_size = P.sz req.obj_id) (hroom : ¬ Room s req)
    {hit : Bool} (hget : LIRS_get s req = some (s', hit)) :
    (∃ o, s'.LRU_s.q.lookup req.obj_id = some o ∧ o.md = ⟨false, true⟩) ∧ req.obj_id ∉ s'.LRU_q.q := by
  simp only [Room, Classical.not_imp] at hroom
  obtain ⟨hmemQ, hmemS, hpush⟩ := hroom
  rw [show (s.LRU_s.q.entries.reverse.filter (·.2.md.is_LIR)).map (·.2.obj_size) = _ from LIR_sizes_eq h.good.core, hreq,
    h.good.core.frame.lirs_limit, h.good.core.frame.hirs_limit] at hpush
  obtain ⟨q, hQ⟩ := exists_lookup hmemQ
  have hS := lookup_eq_none.2 hmemS
  obtain ⟨rfl, hsz⟩ := h.good.core.tables.Q_rec _ q hQ
  set Q' : Lru Md := to_head s.LRU_q req.obj_id _ with hQ'
  have hsound1 : Sound P none { s with n_req := s.n_req + 1, LRU_q := Q' } := h.sound.count_req.queue_to_head hQ
  have hpushed : Pushed P req.obj_id { s with n_req := s.n_req + 1, LRU_q := Q' } := by
    refine ⟨lookup_none_iff_stack.1 hS, .inr ⟨[], (s.LRU_q.q.erase req.obj_id).keys, rfl, ?_⟩⟩
    rw [total_nil, zero_add]
    exact not_le.1 hpush
  obtain ⟨s2, hloop, hsound2, ⟨haway, hpush2⟩, hfit, -⟩ := make_LIR_room_spec (Pushed P req.obj_id) (P.size_le_lirs hsz)
    (fun t t' b ht ht' hfull hd hI => hI.step ht ht' hfull hd) hsound1 (fun _ => h.good.pruned) hpushed
  have hgone : req.obj_id ∉ s2.LRU_q.q := by
    rcases hpush2 with hnot | ⟨young, old, hkeys, hpush2⟩
    · exact hnot
    · have hhirs := hsound2.counts.hirs
      have hle := hsound2.counts.hirs_fit
      have hold := P.total_nonneg old
      rw [demoted_of_le _ hfit] at hpush2
      rw [hkeys, total_append, total_cons] at hhirs
      omega
  have hN : req.obj_id ∉ s2.LRU_nh.q := by
    rw [← lookup_eq_none]
    by_contra hn
    obtain ⟨o, ho, -⟩ := (hsound2.tables.nh _).1 hn
    rw [lookup_none_iff_stack.2 haway] at ho
    cases ho
  set s3 : State := { s2 with
    LRU_s := s2.LRU_s.LRU_insert (obj_to_request ⟨req.obj_id, ⟨P.sz req.obj_id, ⟨false, true⟩⟩⟩) ⟨false, true⟩ } with hs3
  have hfind : ops.find (ops.count_req s) req = some (s3, true) := by
    have hhit : hit_RD_HIRinQ { s with n_req := s.n_req + 1, LRU_q := Q' } req.obj_id ⟨P.sz req.obj_id, ⟨false, true⟩⟩ = some s3 := by
      simp only [hit_RD_HIRinQ, hloop, bind_eq_bind]
      rfl
    simp only [ops, LIRS_find, Lru.LRU_find_miss hS, Lru.LRU_find_hit hQ]
    exact map_eq_some_iff.2 ⟨s3, hhit, rfl⟩
  have hbase : ops.cache_get_base (fun s => s.occupied_byte.toNat) s req = some (s3, true) :=
    CacheOps.cache_get_base_hit hfind
  simp only [LIRS_get, hbase, bind_eq_bind, bind_some, bind_eq_some_iff] at hget
  obtain ⟨s4, hlimit, hs'⟩ := hget
  cases hs'
  have hlook : s3.LRU_s.q.lookup req.obj_id = some ⟨P.sz req.obj_id, ⟨false, true⟩⟩ := lookup_insert _
  obtain ⟨hkept, hQ4⟩ := limitStack_keeps hlook hN hlimit
  refine ⟨⟨_, hkept, rfl⟩, ?_⟩
  rw [hQ4]
  exact hgone

/-! ## Every run -/

def found (s : State) (x : ObjId) : Prop := (LIRS_find s { obj_id := x } false).map (·.2) = some true

instance (s : State) (x : ObjId) : Decidable (found s x) := by
  unfold found
  infer_instance

/-- The counters are those of the ids that are found, and the flags say in which tables a block is. -/
structure Accounted (sz : ObjId → Int) (s : State) : Prop where
  counted : ∃ ids : Finset ObjId, (∀ x, x ∈ ids ↔ found s x) ∧ s.n_obj = ids.card ∧ s.occupied_byte = ∑ x ∈ ids, sz x
  HIR_in_Q : ∀ x o, s.LRU_s.q.lookup x = some o → o.md.is_LIR = false → o.md.in_cache = true → x ∈ s.LRU_q.q
  Q_HIR : ∀ x o, s.LRU_q.q.lookup x = some o → o.md.is_LIR = false ∧ o.md.in_cache = true
  nh : ∀ x, x ∈ s.LRU_nh.q ↔ ∃ o, s.LRU_s.q.lookup x = some o ∧ o.md.is_LIR = false ∧ o.md.in_cache = false

theorem mem_lirs {S : Lru Md} : x ∈ lirs (stack S) ↔ ∃ o, S.q.lookup x = some o ∧ o.md.is_LIR = true := by
  constructor
  · intro hx
    obtain ⟨a, ha, rfl⟩ := List.mem_map.1 hx
    obtain ⟨hmem, hlir⟩ := mem_filter.1 ha
    obtain ⟨e, he, rfl⟩ := List.mem_map.1 hmem
    exact ⟨e.2, lookup_of_mem_entries he, hlir⟩
  · rintro ⟨o, ho, hlir⟩
    apply List.mem_map.2
    refine ⟨(x, true), mem_filter.2 ⟨List.mem_map.2 ⟨⟨x, o⟩, mem_entries_of_lookup ho, ?_⟩, rfl⟩, rfl⟩
    rw [hlir]

theorem found_iff (h : Core P none s) (x : ObjId) : found s x ↔ x ∈ residents s := by
  rw [residents, mem_append, mem_lirs, ← AList.mem_keys, ← lookup_isSome]
  unfold found LIRS_find
  simp only [Lru.LRU_find_probe]
  rcases hS : s.LRU_s.q.lookup x with _ | o
  · rcases hQ : s.LRU_q.q.lookup x with _ | q
    · simp
    · simp [(h.tables.Q_rec x q hQ).1]
  · rcases hmd : o.md with ⟨is_LIR, in_cache⟩
    cases is_LIR with
    | true => simp [hmd]
    | false =>
      cases in_cache with
      | true =>
        rcases h.tables.S_in_Q x o hS hmd with ⟨q, hq⟩ | hhold
        · simp [hmd, show s.LRU_q.q.lookup x = some q from hq]
        · cases hhold
      | false =>
        have hQ : s.LRU_q.q.lookup x = none := by
          rcases hq : s.LRU_q.q.lookup x with _ | q
          · rfl
          · have hres := h.tables.Q_in_S x q o hq hS
            rw [hmd] at hres
            cases hres
        simp [hmd, hQ]

theorem Core.residents_nodup (h : Core P none s) : (residents s).Nodup := by
  rw [residents, nodup_append]
  refine ⟨?_, s.LRU_q.q.nodupKeys, ?_⟩
  · have hsub : (lirs (stack s.LRU_s)).Sublist s.LRU_s.q.keys := by
      have hkeys : s.LRU_s.q.keys = (stack s.LRU_s).map (·.1) := by
        rw [AList.keys, List.keys, stack, List.map_map]
        rfl
      rw [hkeys]
      exact filter_sublist.map _
    exact hsub.nodup s.LRU_s.q.nodupKeys
  · rintro y hy z hz rfl
    obtain ⟨o, ho, hlir⟩ := mem_lirs.1 hy
    exact lookup_none_iff_keys.1 (h.tables.lir_notMem_Q ho hlir) hz

theorem Core.counted (h : Core P none s) :
    ∃ ids : Finset ObjId, (∀ x, x ∈ ids ↔ found s x) ∧ s.n_obj = ids.card ∧ s.occupied_byte = ∑ x ∈ ids, P.sz x := by
  refine ⟨(residents s).toFinset, fun x => ?_, ?_, ?_⟩
  · rw [List.mem_toFinset, found_iff h]
  · rw [toFinset_card_of_nodup h.residents_nodup, residents, length_append, h.counts.n_obj]
    rfl
  · rw [sum_toFinset _ h.residents_nodup, h.occupied_eq]
    rfl

theorem Good.accounted (h : Good P s) : Accounted P.sz s := by
  refine ⟨h.core.counted, ?_, ?_, ?_⟩
  · intro x o ho hhir hin
    rcases h.core.tables.S_in_Q x o ho (by rw [← hhir, ← hin]) with ⟨q, hq⟩ | hhold
    · exact mem_of_lookup hq
    · cases hhold
  · intro x o ho
    rw [(h.core.tables.Q_rec x o ho).1]
    exact ⟨rfl, rfl⟩
  · intro x
    have hnh := h.core.tables.nh x
    rw [ne_none_iff_isSome, lookup_isSome] at hnh
    rw [hnh]
    constructor
    · rintro ⟨o, ho, hmd⟩
      exact ⟨o, ho, by rw [hmd], by rw [hmd]⟩
    · rintro ⟨o, ho, hhir, hout⟩
      refine ⟨o, ho, ?_⟩
      rcases hmd : o.md with ⟨a, b⟩
      simp_all

/-! ### The start -/

def Setup.of_init (sz : ObjId → Int) (hsz : ∀ x, 0 < sz x) (cache_size : Nat) (hcs : 2 ≤ cache_size) : Setup where
  sz := sz
  cache_size := cache_size
  hirs_limit := hirs_limit_of cache_size
  lirs_limit := cache_size - hirs_limit_of cache_size
  sz_pos := hsz
  hirs_pos := by
    have hone : 1 ≤ hirs_limit_of cache_size := Nat.le_max_left _ _
    omega
  hirs_le := by
    have h1 := round53_le cache_size
    have h2 := round53_le (hirs_ratio * round53 cache_size)
    have hhalf : 2 * hirs_limit_of cache_size ≤ cache_size := by
      unfold hirs_limit_of
      unfold hirs_ratio at h2 ⊢
      omega
    omega
  limits := by omega

variable {cache_size : Nat}

theorem init_good (sz : ObjId → Int) (hsz : ∀ x, 0 < sz x) (hcs : 2 ≤ cache_size) :
    Good (Setup.of_init sz hsz cache_size hcs) (LIRS_init cache_size false) := by
  refine ⟨⟨⟨rfl, rfl, rfl, rfl, rfl⟩, ?_, (fun _ _ hx => nomatch hx), ⟨rfl, rfl, rfl, rfl, ?_, ?_⟩⟩, .inl ⟨rfl, rfl⟩⟩
  · constructor
    · intro x o ho
      cases ho
    · intro x o ho
      cases ho
    · intro x q o hq
      cases hq
    · intro x o ho
      cases ho
    · intro x
      constructor
      · intro hn
        exact absurd rfl hn
      · rintro ⟨o, ho, -⟩
        cases ho
    · intro x r hx
      cases hx
  · have h1 := (Setup.of_init sz hsz cache_size hcs).hirs_pos
    have h2 := (Setup.of_init sz hsz cache_size hcs).hirs_le
    show (0 : Int) ≤ _
    omega
  · have h1 := (Setup.of_init sz hsz cache_size hcs).hirs_pos
    show (0 : Int) ≤ _
    omega

theorem init_ledger (P : Setup) (cache_size : Nat) (md : Bool) :
    Ledger P (LIRS_init cache_size md) :=
  ⟨Fifo.init_inv _ _, (fun _ _ hx => nomatch hx), rfl⟩

def get_step (s : State) (req : Request) : Option State := (LIRS_get s req).map (·.1)

theorem reach_settled (hcs : 2 ≤ cache_size) {sz : ObjId → Int} (hsz : ∀ x, 0 < sz x) {s : State}
    (hr : Reach get_step (fun s req => req.obj_size = sz req.obj_id ∧ Room s req) (LIRS_init cache_size false) s) :
    Settled (Setup.of_init sz hsz cache_size hcs) s := by
  apply Reach.inv (Settled (Setup.of_init sz hsz cache_size hcs)) _ ⟨init_good sz hsz hcs, init_ledger _ _ _⟩ hr
  rintro t req t' ht ⟨hreq, hroom⟩ hstep
  obtain ⟨t1, hit, hget, hsettled⟩ := ht.get hreq hroom
  simp only [get_step, hget, map_some, some.injEq] at hstep
  exact hstep ▸ hsettled

/-- In a run whose hits in `Q` all find room every state is accounted for, and the next get returns to such
a state if and only if it finds room too. -/
theorem runs_accounted {cache_size : Nat} (hcs : 2 ≤ cache_size) {sz : ObjId → Int} (hsz : ∀ x, 0 < sz x) {s : State}
    (hr : Reach get_step (fun s req => req.obj_size = sz req.obj_id ∧ Room s req) (LIRS_init cache_size false) s) :
    Accounted sz s ∧ ∀ req, req.obj_size = sz req.obj_id →
      ((∃ s' hit, LIRS_get s req = some (s', hit) ∧ Accounted sz s') ↔ Room s req) := by
  have hs := reach_settled hcs hsz hr
  refine ⟨hs.good.accounted, fun req hreq => ⟨?_, ?_⟩⟩
  · rintro ⟨s', hit, hget, hacc⟩
    by_contra hroom
    obtain ⟨⟨o, ho, hmd⟩, hout⟩ := LIRS_get_pushed hs hreq hroom hget
    exact hout (hacc.HIR_in_Q _ o ho (by rw [hmd]) (by rw [hmd]))
  · intro hroom
    obtain ⟨s', hit, hget, hs'⟩ := hs.get hreq hroom
    exact ⟨s', hit, hget, hs'.good.accounted⟩

theorem runs_accounted_two : ∃ s, Reach get_step (fun s req => req.obj_size = 1 ∧ Room s req) (LIRS_init 2 false) s ∧
    Accounted (fun _ => 1) s ∧ ¬ ∃ s' hit, LIRS_get s { obj_id := 1 } = some (s', hit) ∧ Accounted (fun _ => 1) s' := by
  obtain ⟨s, hs, hfull⟩ : ∃ s, runs (fun s req => if req.obj_size = 1 ∧ Room s req then get_step s req else none) (LIRS_init 2 false)
      [{ obj_id := 1 }, { obj_id := 2 }, { obj_id := 2 }] = some s ∧ ¬ Room s { obj_id := 1 } := by decide +kernel
  have hreach := Reach.of_checked hs
  obtain ⟨hacc, hnext⟩ := runs_accounted le_rfl (fun _ => Int.one_pos) hreach
  refine ⟨s, hreach, hacc, ?_⟩
  rw [hnext { obj_id := 1 } rfl]
  simpa using hfull

/-- The hit of block 1 pushes block 1 out of `Q`: one object is counted, and two are found. -/
theorem not_runs_accounted : ¬ ∀ cache_size : Nat, 2 ≤ cache_size → ∀ sz : ObjId → Int, (∀ x, 0 < sz x) →
    ∀ reqs : List Request, (∀ req ∈ reqs, req.obj_size = sz req.obj_id) →
      ∀ s, runs get_step (LIRS_init cache_size false) reqs = some s → Accounted sz s := by
  intro hclaim
  obtain ⟨s, hs, hn, h1, h2⟩ : ∃ s, runs get_step (LIRS_init 2 false)
    [{ obj_id := 1 }, { obj_id := 2 }, { obj_id := 2 }, { obj_id := 1 }] = some s ∧ s.n_obj = 1 ∧ found s 1 ∧ found s 2 := by
    decide +kernel
  have hacc := hclaim 2 le_rfl (fun _ => 1) (fun _ => Int.one_pos) _ (by decide) s hs
  obtain ⟨ids, hids, hcard, -⟩ := hacc.counted
  have hsub : ({1, 2} : Finset ObjId) ⊆ ids := by
    intro x hx
    rcases Finset.mem_insert.1 hx with rfl | hx
    · exact (hids 1).2 h1
    · rw [Finset.mem_singleton.1 hx]
      exact (hids 2).2 h2
  have hle := Finset.card_le_card hsub
  rw [Finset.card_pair (by decide)] at hle
  omega

end CacheSim.Lirs
