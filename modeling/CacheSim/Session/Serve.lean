import CacheSim.Session.Proofs

/-!
# Serving requests over a session cache
-/

namespace CacheSim.Session

open Lib Prefixsim AList Finset

variable {π : Type} {H : Hooks π} {K : Int} {Inv : π → Finset SessionId → Prop}

/-! ## The hooks -/

variable {s : State π}

theorem set_ctx_spec (hs : Exact K Inv s) (ctx : RequestCtx) :
    Exact K Inv (set_ctx s ctx) ∧ resident (set_ctx s ctx) = resident s := by
  unfold set_ctx
  split_ifs <;> exact ⟨.of_books { hs with toUnitSizes := ⟨hs.sizes, hs.occupied⟩, claims := rfl } hs.held, rfl⟩

/-- What holds between `record` and the accesses: the claimed blocks that are not resident are
among the request's `ids`. -/
structure Recorded (K : Int) (Inv : π → Finset SessionId → Prop) (ids : List ObjId) (s : State π) : Prop
    extends Books K Inv (occurrences s.sessions) s where
  held : ∀ id ∈ resident s, 0 < occurrences s.sessions id
  expected : ∀ id, 0 < occurrences s.sessions id → id ∈ resident s ∨ id ∈ ids
  claimed : ∀ id ∈ ids, 0 < occurrences s.sessions id

theorem is_new_eq (hs : Exact K Inv s) (t : SessionId) :
    (((s.sessions.lookup t).getD {}).path.isEmpty && ((s.sessions.lookup t).getD {}).last_access == 0) =
      decide (t ∉ live s) := by
  have hlive : t ∈ live s ↔ ∃ m, s.sessions.lookup t = some m := mem_keySet_lookup
  rcases h : s.sessions.lookup t with _ | m
  · have hnot : t ∉ live s := by simp [hlive, h]
    simp [hnot]
  · have hpos := hs.turns t m h
    have hne : m.last_access ≠ 0 := by omega
    have hin : t ∈ live s := hlive.2 ⟨m, h⟩
    simp [hne, hin]

theorem record_spec (hH : Sound H Inv) (hs : Exact K Inv s) (ids : List ObjId) :
    Recorded K Inv ids (record H s ids) ∧ resident (record H s ids) ⊆ resident s := by
  set m := (s.sessions.lookup s.cur_session).getD {} with hm
  have hpath : pathOf s.sessions s.cur_session = m.path := by
    unfold pathOf
    rw [hm]
    rcases s.sessions.lookup s.cur_session with _ | m' <;> rfl
  obtain ⟨blocks, hclaim, hcounts⟩ := claim_all ids ({ s with now := s.now + 1 }, m)
    (occurrences s.sessions) hs.counts
  have htb := take_back_all m.path { s with now := s.now + 1, blocks := blocks }
    (fun id => occurrences s.sessions id + ids.count id) hcounts ⟨hs.sizes, hs.occupied⟩
    (by
      intro id hid
      have := (hs.held id).1 hid
      omega)
    (by
      intro id
      have := count_le_occurrences s.sessions s.cur_session id
      rw [hpath] at this
      omega)
  have hfold := foldl_release m.path (ids.foldl claim ({ s with now := s.now + 1 }, m))
  rw [hclaim] at hfold
  set t := m.path.foldl take_back { s with now := s.now + 1, blocks := blocks } with ht
  obtain ⟨m', hm'path, hm'last, hrecord⟩ : ∃ m' : SessionMeta, m'.path = ids ∧ m'.last_access = s.now + 1 ∧
      record H s ids = { t with
        sessions := s.sessions.insert s.cur_session m'
        policy := H.on_touch s.policy (s.sessions.insert s.cur_session m') s.cur_session
          (decide (s.cur_session ∉ live s)) } := by
    let w := m.path.foldl release (ids.foldl claim ({ s with now := s.now + 1 }, m))
    refine ⟨{ w.2 with
      path := ids
      last_access := s.now + 1
      next_access := s.cur_next_access
      freq := if w.2.freq < 3 then w.2.freq + 1 else w.2.freq }, rfl, rfl, ?_⟩
    unfold record
    simp only
    rw [hfold, ← is_new_eq hs]
  have hkey : keySet (s.sessions.insert s.cur_session m') = insert s.cur_session (live s) :=
    keySet_insert _ _ _
  have hocc : ∀ id, occurrences (s.sessions.insert s.cur_session m') id =
      occurrences s.sessions id + ids.count id - m.path.count id := by
    intro id
    rw [occurrences_insert, hm'path, hpath]
  have hle : ∀ id, m.path.count id ≤ occurrences s.sessions id := by
    intro id
    rw [← hpath]
    exact count_le_occurrences _ _ _
  have hmem : ∀ id, id ∈ resident t ↔
      id ∈ resident s ∧ 0 < occurrences (s.sessions.insert s.cur_session m') id := by
    intro id
    rw [htb.resident, mem_filter, hocc]
    rfl
  rw [hrecord]
  refine ⟨⟨⟨⟨htb.units.sizes, htb.units.occupied⟩, htb.same.cache_size.trans hs.size, rfl, ?_, ?_, ?_, ?_⟩,
    ?_, ?_, ?_⟩, ?_⟩
  · have hfun : occurrences (s.sessions.insert s.cur_session m') =
        fun id => occurrences s.sessions id + ids.count id - m.path.count id := funext hocc
    rw [hfun]
    exact htb.counts
  · show Inv _ (keySet (s.sessions.insert s.cur_session m'))
    rw [hkey]
    exact hH.touch s.policy _ s.cur_session (live s) hs.policy hkey
  · intro u m1 hu
    have hnow := hs.now
    rcases eq_or_ne u s.cur_session with rfl | hne
    · rw [lookup_insert, Option.some.injEq] at hu
      rw [← hu, hm'last]
      omega
    · rw [lookup_insert_ne hne] at hu
      exact hs.turns u m1 hu
  · have hnow := hs.now
    rw [htb.same.now]
    show 0 ≤ s.now + 1
    omega
  · intro id hid
    exact ((hmem id).1 hid).2
  · intro id hpos
    rcases em (id ∈ ids) with hin | hin
    · exact Or.inr hin
    · left
      refine (hmem id).2 ⟨(hs.held id).2 ?_, hpos⟩
      have h0 := List.count_eq_zero.2 hin
      have h1 := hocc id
      have h2 : 0 < occurrences (s.sessions.insert s.cur_session m') id := hpos
      omega
  · intro id hin
    show 0 < occurrences (s.sessions.insert s.cur_session m') id
    have h0 := List.count_pos_iff.2 hin
    have h1 := hocc id
    have h2 := hle id
    omega
  · intro id hid
    exact ((hmem id).1 hid).1

/-! ## Gets and evictions -/

theorem residency (H : Hooks π) {I : State π → Prop} (hI : ∀ c, I c → c.occupied_byte = (resident c).card) :
    Residency (SessionCache H) I resident where
  find c id _ := by
    show (c.hashtable.lookup id).isSome = true ↔ id ∈ keySet c.hashtable
    rw [lookup_isSome, mem_keySet]
  occupied := hI

variable {f : ObjId → Nat}

theorem note_insert_spec (hs : Books K Inv f s) (id : ObjId) (cost : Int) :
    Books K Inv f (note_insert s id cost) ∧ resident (note_insert s id cost) = resident s ∧
      (note_insert s id cost).victims = s.victims := by
  unfold note_insert
  rcases hb : s.blocks id with _ | b
  · exact ⟨hs, rfl, rfl⟩
  · have hcounts : Counts (Function.update s.blocks id
        (some { b with cost := if cost > 0 then cost else 1 })) f := by
      obtain ⟨hclaims, hpos⟩ := hs.counts.entry hb
      have := hs.counts.update_some id (b := { b with cost := if cost > 0 then cost else 1 })
        hclaims hpos
      rwa [Function.update_eq_self] at this
    dsimp only
    rcases hm : s.sessions.lookup s.cur_session with _ | m
    · exact ⟨{ hs with toUnitSizes := ⟨hs.sizes, hs.occupied⟩, counts := hcounts }, rfl, rfl⟩
    · have hturns : ∀ x, SameTurns s.sessions (s.sessions.insert s.cur_session { m with cost_sum := x }) := by
        intro x t
        rcases eq_or_ne t s.cur_session with rfl | hne
        · rw [lookup_insert, hm]
          rfl
        · rw [lookup_insert_ne hne]
      refine ⟨⟨⟨hs.sizes, hs.occupied⟩, hs.size, (hturns _).occurrences.trans hs.claims, hcounts, ?_, ?_,
        hs.now⟩, rfl, rfl⟩
      · show Inv s.policy (keySet _)
        rw [(hturns _).keySet]
        exact hs.policy
      · intro t m' hm'
        obtain ⟨m0, hm0, hlast⟩ := (hturns _).last_access hm'
        rw [← hlast]
        exact hs.turns t m0 hm0

theorem insert_spec (hs : Books K Inv f s) {req : Request}
    (hmiss : req.obj_id ∉ resident s) (hsize : req.obj_size = 1) :
    Books K Inv f (SessionCache_insert s req) ∧
      resident (SessionCache_insert s req) = insert req.obj_id (resident s) ∧
      (SessionCache_insert s req).victims = s.victims := by
  have hres : keySet (s.hashtable.insert req.obj_id req.obj_size) = insert req.obj_id (resident s) :=
    keySet_insert _ _ _
  have hbase : Books K Inv f { s with
      hashtable := s.hashtable.insert req.obj_id req.obj_size
      occupied_byte := s.occupied_byte + req.obj_size
      n_obj := s.n_obj + 1 } := by
    refine { hs with toUnitSizes := ⟨?_, ?_⟩ }
    · intro id size hlook
      rcases eq_or_ne id req.obj_id with rfl | hne
      · rw [lookup_insert, Option.some.injEq] at hlook
        rw [← hlook, hsize]
      · rw [lookup_insert_ne hne] at hlook
        exact hs.sizes id size hlook
    · show s.occupied_byte + req.obj_size = ((keySet (s.hashtable.insert req.obj_id req.obj_size)).card : Int)
      rw [hres, card_insert_of_notMem hmiss, hs.occupied, hsize]
      rfl
  obtain ⟨h1, h2, h3⟩ := note_insert_spec hbase req.obj_id req.obj_cost
  exact ⟨h1, h2.trans hres, h3⟩

theorem reporting_eq {g : State π → Option (State π)} {s t : State π}
    (h : g { s with victims := [] } = some t) :
    reporting g s = some ({ t with victims := [] }, t.victims) := by
  unfold reporting
  rw [h]
  rfl

theorem gets (H : Hooks π) (config : SimulatorConfig) (f : ObjId → Nat) :
    Gets (SessionCache H) config (Books config.cache_size_blocks Inv f) resident where
  get_hit := by
    intro c req hc hhit
    have hfind : (c.hashtable.lookup req.obj_id).isSome = true := by
      rw [lookup_isSome, ← mem_keySet]
      exact hhit
    refine ⟨{ c with victims := [], n_req := c.n_req + 1 }, ?_,
      { hc with toUnitSizes := ⟨hc.sizes, hc.occupied⟩ }, rfl⟩
    show reporting (SessionCache_get H · req) c = _
    rw [reporting_eq (t := { c with victims := [], n_req := c.n_req + 1 })]
    unfold SessionCache_get
    have hf : (ops H).find ((ops H).count_req { c with victims := [] }) req =
        some ({ c with victims := [], n_req := c.n_req + 1 }, true) := by
      simp [ops, hfind]
    rw [CacheOps.cache_get_base_hit hf]
    rfl
  get_miss := by
    intro c req hc hmiss hsize hroom
    have hfind : (c.hashtable.lookup req.obj_id).isSome = false := by
      rw [Bool.eq_false_iff, ne_eq, lookup_isSome, ← mem_keySet]
      exact hmiss
    have hocc := hc.occupied
    have hcs := hc.size
    let c1 : State π := { c with victims := [], n_req := c.n_req + 1 }
    have hc1 : Books config.cache_size_blocks Inv f c1 :=
      { hc with toUnitSizes := ⟨hc.sizes, hc.occupied⟩ }
    obtain ⟨hbooks, hres, hvict⟩ := insert_spec hc1 hmiss hsize
    have hnot_full : (ops H).full_for req c1 = false := by
      rw [CacheOps.full_for_false_iff]
      show c.occupied_byte + req.obj_size + 0 ≤ c.cache_size
      omega
    refine ⟨{ SessionCache_insert c1 req with victims := [] }, ?_,
      { hbooks with toUnitSizes := ⟨hbooks.sizes, hbooks.occupied⟩ }, hres⟩
    show reporting (SessionCache_get H · req) c = _
    rw [reporting_eq (t := SessionCache_insert c1 req), hvict]
    unfold SessionCache_get
    have hf : (ops H).find ((ops H).count_req { c with victims := [] }) req = some (c1, false) := by
      simp [ops, hfind, c1]
    have hcan : (ops H).can_insert c1 req = some (c1, true) := by
      have hle : req.obj_size ≤ c.cache_size := by omega
      simp [ops, hle, c1]
    rw [CacheOps.cache_get_base_insert hf hcan (whileLoop_stop _ _ _ _ hnot_full) rfl]
    rfl

/-- Each round frees something: no block is resident without a session to evict it through. -/
theorem reports (hH : Sound H Inv) (pin : Option (ObjId → Bool)) :
    Reports (SessionCache H) pin False (Exact K Inv) resident := by
  intro req_buf a hc hne hlt
  obtain ⟨e, ws, hev, he, hend⟩ := evict_n_spec hH (hc.clear []) (a.needed - a.progress)
  obtain ⟨vs, hvs, hnodup, hset⟩ := he.reported
  have hsub : resident e.s ⊆ resident a.cache := he.sub
  have hset' : vs.toFinset = resident a.cache \ resident e.s := hset
  refine ⟨{ e.s with victims := [] }, vs, ?_, he.exact.clear [], ?_, hnodup, ?_, ?_, False.elim⟩
  · show (reporting (fun s => (evict_n H s (a.needed - a.progress)).map (·.1)) a.cache).bind _ = _
    unfold reporting
    simp [hev, hvs]
  · rintro rfl
    have hall : resident a.cache ⊆ resident e.s := by
      rw [← sdiff_eq_empty_iff_subset, ← hset']
      rfl
    have hzero : e.freed = 0 := by
      rw [he.freed]
      show ((resident a.cache \ resident e.s).card : Int) = 0
      rw [← hset']
      rfl
    obtain ⟨x, hx⟩ := hne
    have := hall hx
    simp [he.exact.resident_eq, hend (by omega), named] at this
  · rw [hset']
    exact sdiff_subset
  · rw [hset', Finset.sdiff_sdiff_eq_self hsub]
    rfl

theorem serve_spec (hH : Sound H Inv) (config : SimulatorConfig) {s : Simulator (State π)}
    {request : BlockRequest} (hs : Exact config.cache_size_blocks Inv s.cache)
    (hskip : skips config request = false) (hcost : CostsFit config request) :
    ∃ s', serve (SessionCache H) config s request = some (s', .ok ()) ∧
      Exact config.cache_size_blocks Inv s'.cache := by
  have hA : (request.alpha.card : Int) ≤ config.cache_size_blocks := by
    unfold skips at hskip
    simpa using hskip
  have hR : Residency (SessionCache H) (Exact config.cache_size_blocks Inv) resident := residency H fun _ hc => hc.occupied
  obtain ⟨m, hm, hroom⟩ := make_room_spec hR (set_ctx_spec hs request.ctx) hcost
    (by
      intro c rb m needed hc _ hneed hpos
      exact allocate_reported hR (reports hH _) hc hA rb m hneed hpos)
  obtain ⟨hrec, hsub⟩ := record_spec hH hroom.inv request.blocks
  set c : State π := { record H m.cache request.blocks with victims := [] } with hc
  have hbooks : Books config.cache_size_blocks Inv (occurrences c.sessions) c :=
    { hrec with toUnitSizes := ⟨hrec.sizes, hrec.occupied⟩, claims := rfl }
  have hfits : ((request.alpha ∪ resident c).card : Int) ≤ config.cache_size_blocks := by
    have := card_le_card (union_subset_union_right (s := request.alpha) hsub)
    have := hroom.fits
    show ((request.alpha ∪ resident (record H m.cache request.blocks)).card : Int) ≤ _
    omega
  have hhook : record_request (SessionCache H) m.cache request = some c := rfl
  have hB : Residency (SessionCache H) (Books config.cache_size_blocks Inv (occurrences c.sessions)) resident :=
    residency H fun _ hc => hc.occupied
  obtain ⟨s', hserve, hinv, hend, -⟩ := serve_of_room hB (gets H config (occurrences c.sessions)) hskip hm hhook hbooks hfits
  refine ⟨s', hserve, .of_books hinv fun id => ?_⟩
  rw [hend, Finset.mem_union]
  show id ∈ request.blocks.toFinset ∨ id ∈ resident (record H m.cache request.blocks) ↔
    0 < occurrences (record H m.cache request.blocks).sessions id
  rw [List.mem_toFinset]
  constructor
  · rintro (hin | hin)
    · exact hrec.claimed id hin
    · exact hrec.held id hin
  · intro hpos
    exact (hrec.expected id hpos).symm

theorem serve_run (hH : Sound H Inv) (config : SimulatorConfig) (requests : List BlockRequest)
    (hcosts : ∀ r ∈ requests, skips config r = false → CostsFit config r) :
    ∃ s, runs (serve_ok (SessionCache H) config)
        { cache := session_cache_init H config.cache_size_blocks } requests = some s ∧
      Exact config.cache_size_blocks Inv s.cache := by
  apply runs_total (fun s : Simulator (State π) => Exact config.cache_size_blocks Inv s.cache)
    (fun r => skips config r = false → CostsFit config r) _ requests _ hcosts (init_exact hH _)
  intro s r hs hcost
  unfold serve_ok
  cases hskip : skips config r with
  | true =>
    obtain ⟨s', hserve, hcache⟩ := serve_skipped (SessionCache H) hskip
    exact ⟨s', by rw [hserve], hcache ▸ hs⟩
  | false =>
    obtain ⟨s', hserve, hexact⟩ := serve_spec hH config hs hskip (hcost hskip)
    exact ⟨s', by rw [hserve], hexact⟩

end CacheSim.Session
