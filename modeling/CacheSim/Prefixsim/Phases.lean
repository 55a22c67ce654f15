import CacheSim.Prefixsim.Model

/-!
# What the phases do for every policy

Phase 2 frees as many blocks as the request lacks room for, no matter which of its own blocks the
policy throws out on the way, so phase 3 inserts without evicting.
-/

namespace CacheSim.Prefixsim

open Lib List Finset
open Option (bind_eq_bind bind_eq_some_iff bind_some)

variable {σ : Type} {P : CachePolicy σ} {config : SimulatorConfig} {request : BlockRequest}

def CostsFit (config : SimulatorConfig) (request : BlockRequest) : Prop :=
  ∀ i < request.blocks.length, config.cost_model i ≤ INT32_MAX

structure SameEvictions (st st' : Stats) : Prop where
  self : st'.n_self_evictions = st.n_self_evictions
  unexpected : st'.n_unexpected_evictions = st.n_unexpected_evictions

theorem SameEvictions.trans {a b c : Stats} (h : SameEvictions a b) (h' : SameEvictions b c) :
    SameEvictions a c := ⟨h'.self.trans h.self, h'.unexpected.trans h.unexpected⟩

/-! ## Match -/

theorem match_block_spec (cache : σ) (m : Matched) (block : ObjId × Nat)
    (hcost : config.cost_model block.2 ≤ INT32_MAX) :
    ∃ m', match_block P config cache m block = some m' ∧ SameEvictions m.stats m'.stats ∧
      m'.resident = m.resident ++ [P.find cache block.1] ∧
      m'.missing = m.missing ∪ Finset.filter (P.find cache · = false) {block.1} := by
  unfold match_block
  simp only [hcost, bind_eq_bind]
  cases hfind : P.find cache block.1 with
  | true => exact ⟨_, rfl, ⟨rfl, rfl⟩, rfl, by simp [Finset.filter_singleton, hfind]⟩
  | false =>
    refine ⟨_, rfl, ⟨rfl, rfl⟩, rfl, ?_⟩
    rw [Finset.filter_singleton, if_pos hfind, union_comm]
    rfl

theorem match_blocks_spec (P : CachePolicy σ) (config : SimulatorConfig) (cache : σ) : ∀ (blocks : List (ObjId × Nat)) (m : Matched),
    (∀ b ∈ blocks, config.cost_model b.2 ≤ INT32_MAX) →
    ∃ m', blocks.foldlM (match_block P config cache) m = some m' ∧ SameEvictions m.stats m'.stats ∧
      m'.resident = m.resident ++ blocks.map (fun b => P.find cache b.1) ∧
      m'.missing = m.missing ∪ ((blocks.map (·.1)).toFinset).filter (P.find cache · = false) := by
  intro blocks
  induction blocks with
  | nil =>
    intro m _
    exact ⟨m, rfl, ⟨rfl, rfl⟩, by simp, by simp⟩
  | cons b blocks ih =>
    intro m hcost
    obtain ⟨m1, h1, hst1, hres1, hmis1⟩ := match_block_spec (P := P) cache m b (hcost b (by simp))
    obtain ⟨m', h', hst', hres', hmis'⟩ := ih m1 fun c hc => hcost c (by simp [hc])
    refine ⟨m', by simp [h1, h'], hst1.trans hst', ?_, ?_⟩
    · rw [hres', hres1]
      simp
    · rw [hmis', hmis1, List.map_cons, toFinset_cons, Finset.insert_eq, filter_union,
        union_assoc]

theorem match_request_spec (cache : σ) (st : Stats) (hcost : CostsFit config request) :
    ∃ m, match_request P config cache st request = some m ∧ SameEvictions st m.stats ∧
      m.resident = request.blocks.map (P.find cache) ∧
      m.missing = request.alpha.filter (P.find cache · = false) := by
  obtain ⟨m, hm, hst, hres, hmis⟩ := match_blocks_spec P config cache
    request.blocks.zipIdx { stats := st } fun b hb => hcost b.2 (by
      have := snd_lt_of_mem_zipIdx hb
      omega)
  refine ⟨m, hm, hst, ?_, ?_⟩
  · rw [hres, nil_append, show (fun b : ObjId × Nat => P.find cache b.1) = P.find cache ∘ Prod.fst from rfl,
      ← List.map_map, zipIdx_map_fst]
  · rw [hmis, zipIdx_map_fst]
    simp [BlockRequest.alpha]

theorem match_blocks_costs (cache : σ) (blocks : List (ObjId × Nat)) : ∀ m m',
    blocks.foldlM (match_block P config cache) m = some m' →
    ∀ b ∈ blocks, config.cost_model b.2 ≤ INT32_MAX := by
  induction blocks with
  | nil =>
    intro m m' _ b hb
    simp at hb
  | cons b blocks ih =>
    intro m m' hm c hc
    rw [foldlM_cons, bind_eq_bind, bind_eq_some_iff] at hm
    obtain ⟨m1, h1, hm⟩ := hm
    rcases mem_cons.1 hc with rfl | hc
    · by_contra hcost
      simp [match_block, hcost] at h1
    · exact ih m1 m' hm c hc

theorem resident_blocks_spec (f : ObjId → Bool) :
    resident_blocks request (request.blocks.map f) = request.alpha.filter (f · = true) := by
  unfold resident_blocks BlockRequest.alpha
  induction request.blocks with
  | nil => simp
  | cons b blocks ih =>
    rw [List.map_cons, zip_cons_cons, toFinset_cons, filter_insert, List.filter_cons]
    cases f b <;> simp_all

/-- In the states of `Inv`, the read-only lookup tells what is `resident`, and the occupancy is
the number of its blocks. -/
structure Residency (P : CachePolicy σ) (Inv : σ → Prop) (resident : σ → Finset ObjId) : Prop where
  find : ∀ c id, Inv c → (P.find c id = true ↔ id ∈ resident c)
  occupied : ∀ c, Inv c → P.get_occupied_byte c = (resident c).card

/-- A get keeps what is resident, inserts its block when there is room, and reports no victim. -/
structure Gets (P : CachePolicy σ) (config : SimulatorConfig) (Inv : σ → Prop)
    (resident : σ → Finset ObjId) : Prop where
  get_hit : ∀ c req, Inv c → req.obj_id ∈ resident c → ∃ c', P.get c req = some (c', []) ∧ Inv c' ∧
    resident c' = resident c
  get_miss : ∀ c req, Inv c → req.obj_id ∉ resident c → req.obj_size = 1 →
    ((resident c).card : Int) < config.cache_size_blocks → ∃ c', P.get c req = some (c', []) ∧ Inv c' ∧
      resident c' = insert req.obj_id (resident c)

variable {Inv : σ → Prop} {resident : σ → Finset ObjId}

/-! ## How much room is lacking -/

def deficit (K : Int) (A R : Finset ObjId) : Int := ((R \ A).card : Int) + A.card - K

theorem deficit_eq (K : Int) (A R : Finset ObjId) : deficit K A R = ((A \ R).card : Int) - (K - R.card) := by
  have h1 := card_sdiff_add_card R A
  have h2 := card_sdiff_add_card A R
  rw [union_comm] at h2
  unfold deficit
  omega

theorem deficit_eq_union (K : Int) (A R : Finset ObjId) : deficit K A R = ((A ∪ R).card : Int) - K := by
  have h := card_sdiff_add_card R A
  rw [union_comm]
  unfold deficit
  omega

variable {K : Int} {A R R₀ : Finset ObjId} {pin : Option (ObjId → Bool)} {c : σ} {capped : Prop} {s : Simulator σ}

variable {T : Finset ObjId}

theorem deficit_sub (h : T ⊆ R) : deficit K A T = deficit K A R - ((R \ T) \ A).card := by
  have hsplit : (R \ A) = (T \ A) ∪ ((R \ T) \ A) := by
    ext x
    simp only [mem_sdiff, mem_union]
    tauto
  have hdisj : Disjoint (T \ A) ((R \ T) \ A) := by
    rw [Finset.disjoint_left]
    intro x hx hx'
    simp only [mem_sdiff] at hx hx'
    exact hx'.1.2 hx.1
  have hcard := card_union_of_disjoint hdisj
  rw [← hsplit] at hcard
  unfold deficit
  omega

theorem card_of_deficit (hA : (A.card : Int) ≤ K) : deficit K A R ≤ R.card := by
  have := card_le_card (sdiff_subset (s := R) (t := A))
  unfold deficit
  omega

theorem card_split {E : Finset ObjId} : E.card = (E \ A).card + (E ∩ A).card := by
  rw [Nat.add_comm]
  exact (card_inter_add_card_sdiff E A).symm

/-! ## Evictions -/

structure Freed (Inv : σ → Prop) (resident : σ → Finset ObjId) (R₀ : Finset ObjId) (c : σ) : Prop where
  inv : Inv c
  sub : resident c ⊆ R₀

/-- What `allocate` has done when it ends: nothing is lacking any more, and the blocks of the
request that went are counted. It freed no more than was lacking if no round did. -/
structure Allocated (capped : Prop) (Inv : σ → Prop) (resident : σ → Finset ObjId) (K : Int)
    (A R₀ : Finset ObjId) (st : Stats) (a : Alloc σ) : Prop extends Freed Inv resident R₀ a.cache where
  enough : deficit K A (resident a.cache) ≤ 0
  exact : capped → deficit K A (resident a.cache) = 0
  self : a.stats.n_self_evictions = st.n_self_evictions + ((R₀ \ resident a.cache) ∩ A).card
  unexpected : a.stats.n_unexpected_evictions = st.n_unexpected_evictions
  ret : a.ret.getD (.ok ()) = .ok ()

/-- Each round of evictions removes at least one object and reports what it removes; `capped`
says that it removes no more than it was asked for. -/
def Reports (P : CachePolicy σ) (pin : Option (ObjId → Bool)) (capped : Prop) (Inv : σ → Prop)
    (resident : σ → Finset ObjId) : Prop :=
  ∀ req_buf a, Inv a.cache → (resident a.cache).Nonempty → a.progress < a.needed → ∃ c' vs,
    evict_round P pin req_buf a = some (c', a.victims ++ vs) ∧ Inv c' ∧ vs ≠ [] ∧ vs.Nodup ∧
    vs.toFinset ⊆ resident a.cache ∧ resident c' = resident a.cache \ vs.toFinset ∧
    (capped → (vs.length : Int) ≤ a.needed - a.progress)

variable {req_buf : Request}

theorem evict_once_reported {c' : σ} {v : ObjId}
    (hev : P.evict pin c req_buf = some (c', [v])) (victims : List ObjId) :
    evict_once P pin req_buf c victims = some (c', victims ++ [v]) := by
  unfold evict_once
  simp only [hev, bind_eq_bind, bind_some, Option.pure_def]
  rw [whileLoop_stop]
  · rfl
  · simp

theorem reports_of_evict (hn : P.evict_n = none)
    (hev : ∀ c req, Inv c → (resident c).Nonempty → ∃ c' v, P.evict pin c req = some (c', [v]) ∧ Inv c' ∧ v ∈ resident c ∧
      resident c' = (resident c).erase v) : Reports P pin True Inv resident := by
  intro req_buf a hc hne hlt
  obtain ⟨c', v, hv, hc', hin, hres⟩ := hev a.cache req_buf hc hne
  refine ⟨c', [v], ?_, hc', by simp, by simp, by simpa using hin, ?_, ?_⟩
  · unfold evict_round
    rw [hn]
    exact evict_once_reported hv a.victims
  · rw [hres, erase_eq]
    rfl
  · rw [length_singleton]
    omega

/-! ## The loop with reported victims -/

/-- Each victim from outside the request is progress, each other one is a self-eviction. -/
structure Reporting (capped : Prop) (Inv : σ → Prop) (resident : σ → Finset ObjId) (K : Int)
    (A R₀ : Finset ObjId) (st : Stats) (a : Alloc σ) : Prop extends Freed Inv resident R₀ a.cache where
  lacking : a.needed - a.progress = deficit K A (resident a.cache)
  within : capped → a.progress ≤ a.needed
  self : a.stats.n_self_evictions = st.n_self_evictions + ((R₀ \ resident a.cache) ∩ A).card
  unexpected : a.stats.n_unexpected_evictions = st.n_unexpected_evictions
  ret : a.ret = none

structure Counted (A : Finset ObjId) (vs : List ObjId) (a a' : Alloc σ) : Prop where
  cache : a'.cache = a.cache
  needed : a'.needed = a.needed
  progress : a'.progress = a.progress + (vs.filter (· ∉ A)).length
  self : a'.stats.n_self_evictions = a.stats.n_self_evictions + (vs.filter (· ∈ A)).length
  unexpected : a'.stats.n_unexpected_evictions = a.stats.n_unexpected_evictions
  ret : a'.ret = a.ret

theorem count_victims_spec (A : Finset ObjId) (vs : List ObjId) :
    ∀ a : Alloc σ, Counted A vs a (vs.foldl (count_victim A) a) := by
  induction vs with
  | nil =>
    intro a
    exact ⟨rfl, rfl, by simp, by simp, rfl, rfl⟩
  | cons v vs ih =>
    intro a
    have h := ih (count_victim A a v)
    rw [foldl_cons]
    unfold count_victim at h ⊢
    split_ifs at h ⊢ with hv
    · refine { h with progress := ?_, self := ?_ }
      · rw [h.progress, List.filter_cons_of_neg (by simpa using hv)]
      · rw [h.self, List.filter_cons_of_pos (by simpa using hv), length_cons]
        push_cast
        omega
    · refine { h with progress := ?_, self := ?_ }
      · rw [h.progress, List.filter_cons_of_pos (by simpa using hv), length_cons]
        push_cast
        omega
      · rw [h.self, List.filter_cons_of_neg (by simpa using hv)]

variable {vs : List ObjId}

theorem length_filter_eq_card (h : vs.Nodup) (p : ObjId → Prop) [DecidablePred p] :
    (vs.filter (fun v => decide (p v))).length = (vs.toFinset.filter p).card := by
  rw [← toFinset_card_of_nodup (h.filter _), toFinset_filter]
  simp

variable {V : Finset ObjId}

theorem self_sub (hV : V ⊆ R) (h : R ⊆ R₀) : ((R₀ \ (R \ V)) ∩ A).card = ((R₀ \ R) ∩ A).card + (V.filter (· ∈ A)).card := by
  rw [← card_union_of_disjoint]
  · congr 1
    ext x
    simp only [mem_inter, mem_sdiff, mem_union, Finset.mem_filter]
    tauto
  · rw [Finset.disjoint_left]
    intro x hx hx'
    simp only [mem_inter, mem_sdiff, Finset.mem_filter] at hx hx'
    exact hx.1.2 (hV hx'.1)

theorem deficit_sdiff (hV : V ⊆ R) : deficit K A (R \ V) = deficit K A R - (V.filter (· ∉ A)).card := by
  rw [deficit_sub sdiff_subset, Finset.sdiff_sdiff_eq_self hV, sdiff_eq_filter]

variable {st : Stats}

theorem reported_round
    {a : Alloc σ} {c' : σ}
    (ha : Reporting capped Inv resident K request.alpha R₀ st a)
    (hev : evict_round P pin req_buf a = some (c', a.victims ++ vs)) (hc' : Inv c') (hne : vs ≠ [])
    (hnodup : vs.Nodup) (hvs : vs.toFinset ⊆ resident a.cache) (hres : resident c' = resident a.cache \ vs.toFinset)
    (hcap : capped → (vs.length : Int) ≤ a.needed - a.progress) :
    ∃ a', allocate_round P config pin req_buf request a = some a' ∧
      Reporting capped Inv resident K request.alpha R₀ st a' ∧
      (resident a'.cache).card < (resident a.cache).card := by
  have hlack := ha.lacking
  have hlen : vs.length ≠ 0 := fun h0 => hne (length_eq_zero_iff.1 h0)
  have hround : allocate_round P config pin req_buf request a =
      some (vs.foldl (count_victim request.alpha) { a with cache := c', victims := a.victims ++ vs }) := by
    unfold allocate_round
    simp only [hev, bind_eq_bind, bind_some, Option.pure_def]
    rw [if_neg (by rw [length_append]; omega), drop_left]
  have hcount := count_victims_spec request.alpha vs { a with cache := c', victims := a.victims ++ vs }
  have hin := length_filter_eq_card hnodup (· ∈ request.alpha)
  have hout := length_filter_eq_card hnodup (· ∉ request.alpha)
  have hprogress := hcount.progress
  have hneeded := hcount.needed
  have hle := length_filter_le (fun v => decide (v ∉ request.alpha)) vs
  refine ⟨_, hround, ?_, ?_⟩
  · refine ⟨⟨?_, ?_⟩, ?_, ?_, ?_, hcount.unexpected.trans ha.unexpected, hcount.ret.trans ha.ret⟩
    · rw [hcount.cache]
      exact hc'
    · rw [hcount.cache]
      exact (hres ▸ sdiff_subset).trans ha.sub
    · rw [hcount.cache, hneeded, hprogress, hout]
      show a.needed - (a.progress + _) = deficit K request.alpha (resident c')
      rw [hres, deficit_sdiff hvs]
      omega
    · intro hc
      have := hcap hc
      rw [hneeded, hprogress]
      show a.progress + _ ≤ a.needed
      omega
    · rw [hcount.self, hcount.cache, hin]
      rw [ha.self, hres, self_sub hvs ha.sub]
      omega
  · rw [hcount.cache]
    have hsome : vs.toFinset.Nonempty := by
      rw [toFinset_nonempty_iff]
      exact hne
    rw [hres, card_sdiff_of_subset hvs]
    have := hsome.card_pos
    have := card_le_card hvs
    omega

theorem reporting_round
    (hP : Reports P pin capped Inv resident)
    {a : Alloc σ} (hA : (request.alpha.card : Int) ≤ K) (req_buf : Request)
    (ha : Reporting capped Inv resident K request.alpha R₀ st a) (hlt : a.progress < a.needed) :
    ∃ a', allocate_round P config pin req_buf request a = some a' ∧
      Reporting capped Inv resident K request.alpha R₀ st a' ∧
      (resident a'.cache).card < (resident a.cache).card := by
  have hlack := ha.lacking
  have hcard := card_of_deficit (R := resident a.cache) hA
  obtain ⟨c', vs, hev, hc', hne, hnodup, hvs, hres, hcap⟩ :=
    hP req_buf a ha.inv (card_pos.1 (by omega)) hlt
  exact reported_round ha hev hc' hne hnodup hvs hres hcap

variable {needed : Int}

section

variable (hR : Residency P Inv resident)
include hR

theorem allocate_rounds (hc : Inv c)
    (req_buf : Request) (m : Matched)
    (hneed : needed = deficit config.cache_size_blocks request.alpha (resident c)) (hpos : 0 < needed)
    (hround : ∀ (rb : Request) (a : Alloc σ),
      Reporting capped Inv resident config.cache_size_blocks request.alpha (resident c) m.stats a →
      a.progress < a.needed → ∃ a', allocate_round P config pin rb request a = some a' ∧
        Reporting capped Inv resident config.cache_size_blocks request.alpha (resident c) m.stats a' ∧
        (resident a'.cache).card < (resident a.cache).card) :
    ∃ a rb, allocate P config pin c req_buf m request needed = some (a, rb) ∧
      Allocated capped Inv resident config.cache_size_blocks request.alpha (resident c) m.stats a := by
  let I := Reporting capped Inv resident config.cache_size_blocks request.alpha (resident c) m.stats
  have hbody : ∀ a, I a → (a.ret.isNone && a.progress < a.needed) = true → ∃ a',
      allocate_round P config pin (evict_request config req_buf request m.resident) request a =
        some a' ∧ I a' ∧ (resident a'.cache).card < (resident a.cache).card := by
    intro a ha hcond
    rw [Bool.and_eq_true, decide_eq_true_eq] at hcond
    exact hround _ a ha hcond.2
  have hstart : I { cache := c, stats := m.stats, needed := needed
                    alpha_resident := resident_blocks request m.resident } := by
    refine ⟨⟨hc, subset_rfl⟩, ?_, fun _ => hpos.le, ?_, rfl, rfl⟩
    · simpa using hneed
    · simp
  obtain ⟨a, hloop, ha, hdone⟩ := whileLoop_total I (fun a => (resident a.cache).card) hbody
    (P.get_occupied_byte c + 1).toNat _ hstart (by
      show (resident c).card ≤ _
      rw [hR.occupied c hc]
      omega)
  rw [Bool.and_eq_false_iff, decide_eq_false_iff_not] at hdone
  have hend : ¬ a.progress < a.needed := by
    rcases hdone with hret | hge
    · simp [ha.ret] at hret
    · exact hge
  have hlack := ha.lacking
  refine ⟨a, _, by simp only [allocate, hloop, bind_eq_bind]; rfl, ha.toFreed,
    by omega, ?_, ha.self, ha.unexpected, by rw [ha.ret]; rfl⟩
  intro hcap
  have := ha.within hcap
  omega

theorem allocate_reported (hP : Reports P pin capped Inv resident) (hc : Inv c)
    (hA : (request.alpha.card : Int) ≤ config.cache_size_blocks) (req_buf : Request) (m : Matched)
    (hneed : needed = deficit config.cache_size_blocks request.alpha (resident c))
    (hpos : 0 < needed) : ∃ a rb, allocate P config pin c req_buf m request needed = some (a, rb) ∧
      Allocated capped Inv resident config.cache_size_blocks request.alpha (resident c) m.stats a := by
  exact allocate_rounds hR hc req_buf m hneed hpos fun rb _ ha hlt => reporting_round hP hA rb ha hlt

/-- From state `s`, room was made for the blocks `A`. When capped, as many blocks from outside `A`
went as were lacking; the blocks of `A` that went with them are counted. -/
structure RoomMade (capped : Prop) (Inv : σ → Prop) (resident : σ → Finset ObjId) (K : Int)
    (A : Finset ObjId) (s m : Simulator σ) : Prop where
  inv : Inv m.cache
  sub : resident m.cache ⊆ resident s.cache
  outside : capped → (((resident s.cache \ resident m.cache) \ A).card : Int) =
    max 0 (((A \ resident s.cache).card : Int) - (K - (resident s.cache).card))
  fits : ((A ∪ resident m.cache).card : Int) ≤ K
  self : m.stats.n_self_evictions =
    s.stats.n_self_evictions + ((resident s.cache \ resident m.cache) ∩ A).card
  unexpected : m.stats.n_unexpected_evictions = s.stats.n_unexpected_evictions

theorem make_room_spec
    (hctx : Inv (set_request_ctx P s.cache request) ∧
      resident (set_request_ctx P s.cache request) = resident s.cache)
    (hcost : CostsFit config request)
    (halloc : ∀ (c : σ) (rb : Request) (m : Matched) (needed : Int), Inv c →
      m.resident = request.blocks.map (P.find c) →
      needed = deficit config.cache_size_blocks request.alpha (resident c) → 0 < needed →
      ∃ a rb', allocate P config (pin_predicate config request) c rb m request needed = some (a, rb') ∧
        Allocated capped Inv resident config.cache_size_blocks request.alpha (resident c) m.stats a) :
    ∃ m, make_room P config s request = some (m, .ok ()) ∧
      RoomMade capped Inv resident config.cache_size_blocks request.alpha s m := by
  unfold make_room
  obtain ⟨hc, hres⟩ := hctx
  set cache := set_request_ctx P s.cache request
  obtain ⟨m, hm, hst, hmres, hmiss⟩ := match_request_spec (P := P) cache
    { s.stats with n_requests := s.stats.n_requests + 1 } hcost
  have hmissing : m.missing = request.alpha \ resident cache := by
    rw [hmiss]
    ext id
    simp [← hR.find cache id hc]
  have hneed : (m.missing.card : Int) - (config.cache_size_blocks - P.get_occupied_byte cache) =
      deficit config.cache_size_blocks request.alpha (resident cache) := by
    rw [hmissing, hR.occupied cache hc, deficit_eq]
  have hdef := deficit_eq config.cache_size_blocks request.alpha (resident cache)
  simp only [hm, bind_eq_bind, bind_some, Option.pure_def]
  split_ifs with hpos
  · obtain ⟨a, rb, halloc, ha⟩ := halloc cache s.req_buf m _ hc hmres hneed hpos
    have hlast := deficit_sub (K := config.cache_size_blocks) (A := request.alpha) ha.sub
    refine ⟨{ cache := a.cache, req_buf := rb, stats := a.stats }, ?_, ha.inv, hres ▸ ha.sub, ?_, ?_, ?_, ?_⟩
    · rw [halloc, bind_some, ha.ret]
    · intro hcap
      have := ha.exact hcap
      rw [← hres]
      show (((resident cache \ resident a.cache) \ request.alpha).card : Int) = _
      omega
    · have := ha.enough
      rw [deficit_eq_union] at this
      show ((request.alpha ∪ resident a.cache).card : Int) ≤ _
      omega
    · rw [← hres]
      exact ha.self.trans (by rw [hst.self])
    · exact ha.unexpected.trans hst.unexpected
  · refine ⟨_, rfl, hc, hres.le, ?_, ?_, ?_, hst.unexpected⟩
    · simp only [hres, Finset.sdiff_self, empty_sdiff, card_empty]
      rw [← hres]
      omega
    · rw [hneed, deficit_eq_union] at hpos
      show ((request.alpha ∪ resident cache).card : Int) ≤ _
      omega
    · simpa [hres] using hst.self

end

/-! ## Access -/

theorem access_blocks_spec (hP : Gets P config Inv resident)
    (hT : (T.card : Int) ≤ config.cache_size_blocks) (hA : request.alpha ⊆ T) (order : List Nat) :
    ∀ (c : σ) (rb : Request), (∀ i ∈ order, i < request.blocks.length) → Inv c → resident c ⊆ T →
      ∃ c' rb', order.foldlM (access_block P config request) (c, rb, []) = some (c', rb', []) ∧
        Inv c' ∧ resident c' ⊆ T ∧ resident c ⊆ resident c' ∧
        ∀ i ∈ order, request.blocks.getD i 0 ∈ resident c' := by
  induction order with
  | nil =>
    intro c rb _ hc hsub
    exact ⟨c, rb, rfl, hc, hsub, subset_rfl, by simp⟩
  | cons i order ih =>
    intro c rb hlt hc hsub
    have hi : i < request.blocks.length := hlt i (by simp)
    have hmem : request.blocks.getD i 0 ∈ T := by
      apply hA
      unfold BlockRequest.alpha
      rw [mem_toFinset, getD_eq_getElem?_getD, getElem?_eq_getElem hi]
      exact getElem_mem hi
    obtain ⟨c1, h1, hc1, hsub1, hkeep, hin⟩ : ∃ c1, P.get c (fill_request config request i) = some (c1, []) ∧
        Inv c1 ∧ resident c1 ⊆ T ∧ resident c ⊆ resident c1 ∧ request.blocks.getD i 0 ∈ resident c1 := by
      rcases em (request.blocks.getD i 0 ∈ resident c) with hhit | hmiss
      · obtain ⟨c1, h1, hc1, hres⟩ := hP.get_hit c (fill_request config request i) hc hhit
        exact ⟨c1, h1, hc1, hres ▸ hsub, hres.ge, hres ▸ hhit⟩
      · have hlt : (resident c).card < T.card :=
          card_lt_card ((ssubset_iff_of_subset hsub).2 ⟨_, hmem, hmiss⟩)
        obtain ⟨c1, h1, hc1, hres⟩ := hP.get_miss c (fill_request config request i) hc hmiss rfl (by omega)
        refine ⟨c1, h1, hc1, ?_, ?_, ?_⟩
        · rw [hres]
          exact insert_subset hmem hsub
        · rw [hres]
          exact subset_insert _ _
        · rw [hres]
          exact mem_insert_self _ _
    obtain ⟨c', rb', h', hc', hsub', hkeep', hall⟩ := ih c1 (fill_request config request i)
      (fun j hj => hlt j (by simp [hj])) hc1 hsub1
    refine ⟨c', rb', ?_, hc', hsub', hkeep.trans hkeep', ?_⟩
    · simp [access_block, h1, h']
    · intro j hj
      rcases mem_cons.1 hj with rfl | hj
      · exact hkeep' hin
      · exact hall j hj

theorem access_spec (hP : Gets P config Inv resident) (hs : Inv s.cache)
    (request : BlockRequest)
    (hfits : ((request.alpha ∪ resident s.cache).card : Int) ≤ config.cache_size_blocks) :
    ∃ s', access P config s request = some s' ∧ Inv s'.cache ∧
      resident s'.cache = request.alpha ∪ resident s.cache ∧ SameEvictions s.stats s'.stats := by
  set order := if config.replay_deepest_first then (List.range request.blocks.length).reverse
    else List.range request.blocks.length with horder
  have hmem : ∀ i, i ∈ order ↔ i < request.blocks.length := by
    rw [horder]
    split_ifs <;> simp
  obtain ⟨c', rb', hrun, hc', hsub, hkeep, hall⟩ := access_blocks_spec hP hfits subset_union_left
    order s.cache s.req_buf (fun i hi => (hmem i).1 hi) hs subset_union_right
  refine ⟨_, by simp only [access, ← horder, hrun, bind_eq_bind]; rfl, hc', ?_, ?_⟩
  · refine Finset.Subset.antisymm hsub (union_subset ?_ hkeep)
    intro id hid
    obtain ⟨i, hi, rfl⟩ := getElem_of_mem (mem_toFinset.1 hid)
    have hin := hall i ((hmem i).2 hi)
    rwa [getD_eq_getElem?_getD, getElem?_eq_getElem hi] at hin
  · exact ⟨rfl, by simp⟩

theorem verify_spec (hP : Residency P Inv resident) (hc : Inv c)
    (hall : request.alpha ⊆ resident c) : verify P c request = .ok () := by
  have hnone : (request.blocks.findIdx? fun id => !P.find c id) = none := by
    rw [findIdx?_eq_none_iff]
    intro id hid
    have hres := (hP.find c id hc).2 (hall (mem_toFinset.2 hid))
    simp [hres]
  unfold verify
  rw [hnone]

theorem serve_of_room (hR : Residency P Inv resident) (hG : Gets P config Inv resident) {m : Simulator σ}
    (hskip : skips config request = false) (hm : make_room P config s request = some (m, .ok ()))
    (hrec : record_request P m.cache request = some c) (hc : Inv c)
    (hfits : ((request.alpha ∪ resident c).card : Int) ≤ config.cache_size_blocks) :
    ∃ s', serve P config s request = some (s', .ok ()) ∧ Inv s'.cache ∧ resident s'.cache = request.alpha ∪ resident c ∧
      SameEvictions m.stats s'.stats := by
  obtain ⟨s', hacc, hinv, hend, hst⟩ := access_spec hG (s := { m with cache := c }) hc request hfits
  have hall : request.alpha ⊆ resident s'.cache := hend ▸ subset_union_left
  refine ⟨s', ?_, hinv, hend, hst⟩
  unfold serve
  simp only [hskip, Bool.false_eq_true, if_false, hm, bind_eq_bind, bind_some, hrec, hacc,
    verify_spec hR hinv hall, ite_self, Option.pure_def]

theorem costsFit_of_serve {r : Simulator σ × Result} (hskip : skips config request = false)
    (hserve : serve P config s request = some r) : CostsFit config request := by
  unfold serve make_room at hserve
  simp only [hskip] at hserve
  obtain ⟨x, hx, -⟩ := bind_eq_some_iff.1 hserve
  obtain ⟨m, hm, -⟩ := bind_eq_some_iff.1 hx
  intro i hi
  have hmem : (request.blocks[i], i) ∈ request.blocks.zipIdx := by
    rw [mem_zipIdx_iff_getElem?]
    exact getElem?_eq_getElem hi
  exact match_blocks_costs _ _ _ _ hm _ hmem

theorem serve_skipped (P : CachePolicy σ) (hskip : skips config request = true) :
    ∃ s', serve P config s request = some (s', .ok ()) ∧ s'.cache = s.cache := by
  unfold serve
  rw [if_pos hskip]
  exact ⟨_, rfl, rfl⟩

end CacheSim.Prefixsim
