import CacheSim.Prefixsim.Calls

/-!
# Serving requests whose blocks are pinned

As long as something is lacking, more blocks are resident than the request leaves room for, so one of them is
not pinned.
-/

namespace CacheSim.Prefixsim

open Lib Finset

variable {σ : Type} {P : CachePolicy σ} {config : SimulatorConfig} {request : BlockRequest}

def pins (A : Finset ObjId) : Option (ObjId → Bool) := some fun id => decide (id ∈ A)

/-- The contract of a policy that passes over pinned blocks. `Ready A n c` says that in `c`, with `A`
pinned, it can do so `n` times. -/
structure PinContract (P : CachePolicy σ) (config : SimulatorConfig) (Inv : σ → Prop) (resident : σ → Finset ObjId)
    (Ready : Finset ObjId → Nat → σ → Prop) : Prop extends Residency P Inv resident, Gets P config Inv resident where
  evict_n : P.evict_n = none
  set_request_ctx : P.set_request_ctx = none
  record_request : P.record_request = none
  evict : ∀ A n c req, Inv c → Ready A (n + 1) c → (∃ x ∈ resident c, x ∉ A) → ∃ c' v,
    P.evict (pins A) c req = some (c', [v]) ∧ Inv c' ∧ v ∈ resident c ∧ v ∉ A ∧ resident c' = (resident c).erase v ∧
      Ready A n c'

/-- What a request that is not skipped leaves behind when its blocks are pinned: none of them went, and
as many others as were lacking, all before the accesses. -/
structure Spared (P : CachePolicy σ) (config : SimulatorConfig) (resident : σ → Finset ObjId) (request : BlockRequest)
    (s s' : Simulator σ) : Prop where
  all : request.alpha ⊆ resident s'.cache
  fits : ((resident s'.cache).card : Int) ≤ config.cache_size_blocks
  self : s'.stats.n_self_evictions = s.stats.n_self_evictions
  unexpected : s'.stats.n_unexpected_evictions = s.stats.n_unexpected_evictions
  room : ∃ m, make_room P config s request = some (m, .ok ()) ∧ resident m.cache ⊆ resident s.cache ∧
    Disjoint (resident s.cache \ resident m.cache) request.alpha ∧
    ((resident s.cache \ resident m.cache).card : Int) = max 0 (((request.alpha \ resident s.cache).card : Int) -
      (config.cache_size_blocks - (resident s.cache).card)) ∧
    resident s'.cache = request.alpha ∪ resident m.cache

def lacking (config : SimulatorConfig) (request : BlockRequest) (R : Finset ObjId) : Nat :=
  (deficit config.cache_size_blocks request.alpha R).toNat

variable {Inv : σ → Prop} {resident : σ → Finset ObjId} {Ready : Finset ObjId → Nat → σ → Prop}

/-- The blocks of the request that were resident in `R₀` are so still, and the policy can go on. -/
structure Sparing (config : SimulatorConfig) (request : BlockRequest) (Inv : σ → Prop) (resident : σ → Finset ObjId)
    (Ready : Finset ObjId → Nat → σ → Prop) (R₀ : Finset ObjId) (c : σ) : Prop where
  inv : Inv c
  kept : ∀ x ∈ R₀, x ∈ request.alpha → x ∈ resident c
  ready : Ready request.alpha (lacking config request (resident c)) c

theorem exists_unpinned {K : Int} {A R : Finset ObjId} (hA : (A.card : Int) ≤ K) (h : 0 < deficit K A R) :
    ∃ x ∈ R, x ∉ A := by
  unfold deficit at h
  obtain ⟨x, hx⟩ := card_pos.1 (by omega : 0 < (R \ A).card)
  exact ⟨x, mem_sdiff.1 hx⟩

section

variable (hP : PinContract P config Inv resident Ready)
include hP

theorem evict_round_spares {R0 : Finset ObjId} {a : Alloc σ}
    (hA : (request.alpha.card : Int) ≤ config.cache_size_blocks) (req_buf : Request)
    (ha : Sparing config request Inv resident Ready R0 a.cache)
    (hlack : 0 < deficit config.cache_size_blocks request.alpha (resident a.cache)) :
    ∃ c' v, evict_round P (pins request.alpha) req_buf a = some (c', a.victims ++ [v]) ∧
      Sparing config request Inv resident Ready R0 c' ∧ v ∈ resident a.cache ∧
      resident c' = (resident a.cache).erase v := by
  obtain ⟨n, hn⟩ : ∃ n, lacking config request (resident a.cache) = n + 1 :=
    ⟨lacking config request (resident a.cache) - 1, by unfold lacking; omega⟩
  obtain ⟨c', v, hev, hc', hv, hfree, hres, hready⟩ :=
    hP.evict request.alpha n a.cache req_buf ha.inv (hn ▸ ha.ready) (exists_unpinned hA hlack)
  refine ⟨c', v, ?_, ⟨hc', ?_, ?_⟩, hv, hres⟩
  · unfold evict_round
    rw [hP.evict_n]
    exact evict_once_reported hev a.victims
  · intro x hx hxA
    rw [hres, mem_erase]
    exact ⟨fun heq => hfree (heq ▸ hxA), ha.kept x hx hxA⟩
  · have hless : lacking config request (resident c') = n := by
      have hone : deficit config.cache_size_blocks request.alpha (resident c') =
          deficit config.cache_size_blocks request.alpha (resident a.cache) - 1 := by
        rw [hres, erase_eq, deficit_sdiff (singleton_subset_iff.2 hv),
          filter_singleton, if_pos hfree]
        rfl
      unfold lacking at hn ⊢
      omega
    rw [hless]
    exact hready

theorem allocate_spares {R0 : Finset ObjId} {c : σ}
    (hc : Sparing config request Inv resident Ready R0 c)
    (hA : (request.alpha.card : Int) ≤ config.cache_size_blocks) (req_buf : Request) (m : Matched) {needed : Int}
    (hneed : needed = deficit config.cache_size_blocks request.alpha (resident c)) (hpos : 0 < needed) :
    ∃ a rb, allocate P config (pins request.alpha) c req_buf m request needed = some (a, rb) ∧
      Allocated True (Sparing config request Inv resident Ready R0) resident config.cache_size_blocks request.alpha
        (resident c) m.stats a := by
  have hR : Residency P (Sparing config request Inv resident Ready R0) resident :=
    ⟨fun c id hc => hP.find c id hc.inv, fun c hc => hP.occupied c hc.inv⟩
  refine allocate_rounds hR hc req_buf m hneed hpos fun rb a ha hlt => ?_
  have hlack := ha.lacking
  obtain ⟨c', v, hev, hc', hv, hres⟩ := evict_round_spares hP hA rb ha.inv (by omega)
  refine reported_round ha hev hc' (by simp) (by simp) (by simpa using hv) ?_ ?_
  · rw [hres, erase_eq]
    rfl
  · rw [List.length_singleton]
    omega

theorem serve_spares (hpin : config.pin_request_blocks = true)
    {s : Simulator σ} (hs : Inv s.cache) (hskip : skips config request = false) (hcost : CostsFit config request)
    (hready : Ready request.alpha (lacking config request (resident s.cache)) s.cache) :
    ∃ s', serve P config s request = some (s', .ok ()) ∧ Inv s'.cache ∧
      Spared P config resident request s s' := by
  have hA : (request.alpha.card : Int) ≤ config.cache_size_blocks := by
    unfold skips at hskip
    simpa using hskip
  have hpins : pin_predicate config request = pins request.alpha := by
    unfold pin_predicate
    rw [hpin]
    rfl
  have hctx : set_request_ctx P s.cache request = s.cache := by
    unfold set_request_ctx
    rw [hP.set_request_ctx]
  have hR : Residency P (Sparing config request Inv resident Ready (resident s.cache)) resident :=
    ⟨fun c id hc => hP.find c id hc.inv, fun c hc => hP.occupied c hc.inv⟩
  obtain ⟨m, hm, hroom⟩ : ∃ m, make_room P config s request = some (m, .ok ()) ∧
      RoomMade True (Sparing config request Inv resident Ready (resident s.cache)) resident config.cache_size_blocks
        request.alpha s m := by
    apply make_room_spec hR ?_ hcost
    · intro c rb m needed hc _ hneed hpos
      rw [hpins]
      exact allocate_spares hP hc hA rb m hneed hpos
    · rw [hctx]
      exact ⟨⟨hs, fun x hx _ => hx, hready⟩, rfl⟩
  have hrec : record_request P m.cache request = some m.cache := by
    unfold record_request
    rw [hP.record_request]
  obtain ⟨s', hserve, hinv, hend, hst⟩ := serve_of_room hP.toResidency hP.toGets hskip hm hrec hroom.inv.inv hroom.fits
  have hdisj : Disjoint (resident s.cache \ resident m.cache) request.alpha := by
    rw [disjoint_left]
    intro x hx hxA
    obtain ⟨hin, hout⟩ := mem_sdiff.1 hx
    exact hout (hroom.inv.kept x hin hxA)
  have hself := hroom.self
  rw [disjoint_iff_inter_eq_empty.1 hdisj] at hself
  have houtside := hroom.outside trivial
  rw [sdiff_eq_self_of_disjoint hdisj] at houtside
  refine ⟨s', hserve, hinv, hend ▸ subset_union_left, hend ▸ hroom.fits, ?_, hst.unexpected.trans hroom.unexpected, m, hm,
    hroom.sub, hdisj, houtside, hend⟩
  rw [hst.self, hself]
  simp

/-! ## Every run -/

/-- From `s₀` on, as long as the requests that are not skipped meet `cond`, no block of a request is
evicted for it, and each is served. -/
def SparesRequests (P : CachePolicy σ) (config : SimulatorConfig) (resident : σ → Finset ObjId)
    (cond : σ → BlockRequest → Prop) (s₀ : Simulator σ) : Prop :=
  ∀ s, Reach (serve_ok P config) (fun s r => skips config r = false → CostsFit config r ∧ cond s.cache r) s₀ s →
    s.stats.n_self_evictions = 0 ∧ ∀ request : BlockRequest,
      (skips config request = true → ∃ s', serve P config s request = some (s', .ok ()) ∧ s'.cache = s.cache ∧
        s'.stats.n_self_evictions = 0) ∧
      (skips config request = false → CostsFit config request → cond s.cache request →
        ∃ s', serve P config s request = some (s', .ok ()) ∧ Spared P config resident request s s')

theorem PinContract.spares (hpin : config.pin_request_blocks = true)
    {cond : σ → BlockRequest → Prop}
    (hcond : ∀ c r, Inv c → skips config r = false → cond c r → Ready r.alpha (lacking config r (resident c)) c)
    {c0 : σ} (h0 : Inv c0) : SparesRequests P config resident cond { cache := c0 } := by
  intro s hreach
  have hskipped : ∀ (s : Simulator σ) (r : BlockRequest), skips config r = true →
      ∃ s', serve P config s r = some (s', .ok ()) ∧ s'.cache = s.cache ∧
        s'.stats.n_self_evictions = s.stats.n_self_evictions := by
    intro s r hskip
    unfold serve
    rw [if_pos hskip]
    exact ⟨_, rfl, rfl, rfl⟩
  obtain ⟨hs, hself⟩ := hreach.inv (fun s => Inv s.cache ∧ s.stats.n_self_evictions = 0) (by
    rintro s r s' ⟨hs, hself⟩ hok hstep
    unfold serve_ok at hstep
    cases hskip : skips config r with
    | true =>
      obtain ⟨t, hserve, hcache, hst⟩ := hskipped s r hskip
      rw [hserve] at hstep
      cases hstep
      exact ⟨hcache ▸ hs, hst.trans hself⟩
    | false =>
      obtain ⟨hcost, hmeets⟩ := hok hskip
      obtain ⟨t, hserve, ht, hspared⟩ := serve_spares hP hpin hs hskip hcost (hcond s.cache r hs hskip hmeets)
      rw [hserve] at hstep
      cases hstep
      exact ⟨ht, hspared.self.trans hself⟩) ⟨h0, rfl⟩
  refine ⟨hself, fun request => ⟨fun hskip => ?_, fun hskip hcost hmeets => ?_⟩⟩
  · obtain ⟨s', hserve, hcache, hst⟩ := hskipped s request hskip
    exact ⟨s', hserve, hcache, hst.trans hself⟩
  · obtain ⟨s', hserve, -, hspared⟩ := serve_spares hP hpin hs hskip hcost (hcond s.cache request hs hskip hmeets)
    exact ⟨s', hserve, hspared⟩

end

end CacheSim.Prefixsim
