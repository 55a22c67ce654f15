import CacheSim.Prefixsim.Phases

/-!
# Serving requests over a policy that evicts one object per call
-/

namespace CacheSim.Prefixsim

open Lib List Finset

variable {σ : Type} {P : CachePolicy σ} {config : SimulatorConfig} {request : BlockRequest}

/-- The contract of a policy that evicts one object per call. `Inv` holds of the policy's states,
`resident` is what it holds, and `reports` says whether it tells its victims to `handle_evict`. -/
structure Contract (P : CachePolicy σ) (config : SimulatorConfig) (Inv : σ → Prop)
    (resident : σ → Finset ObjId) (reports : Bool) : Prop
    extends Residency P Inv resident, Gets P config Inv resident where
  evict_n : P.evict_n = none
  evict : ∀ c req, Inv c → (resident c).Nonempty → ∃ c' v,
    P.evict none c req = some (c', if reports then [v] else []) ∧ Inv c' ∧ v ∈ resident c ∧
      resident c' = (resident c).erase v
  set_request_ctx : ∀ f, P.set_request_ctx = some f → ∀ c ctx, Inv c →
    Inv (f c ctx) ∧ resident (f c ctx) = resident c
  record_request : ∀ f, P.record_request = some f → ∀ c path, Inv c →
    ∃ c', f c path = some c' ∧ Inv c' ∧ resident c' = resident c

section

variable {Inv : σ → Prop} {resident : σ → Finset ObjId} {reports : Bool} {c : σ}

theorem evict_once_spec (hP : Contract P config Inv resident reports) (hc : Inv c)
    (hne : (resident c).Nonempty) (req_buf : Request) (victims : List ObjId) : ∃ c' v,
      evict_once P none req_buf c victims = some (c', victims ++ if reports then [v] else []) ∧
      Inv c' ∧ v ∈ resident c ∧ resident c' = (resident c).erase v := by
  obtain ⟨c', v, hev, hc', hv, hres⟩ := hP.evict c req_buf hc hne
  have hocc : P.get_occupied_byte c' < P.get_occupied_byte c := by
    rw [hP.occupied c' hc', hP.occupied c hc, hres, card_erase_of_mem hv]
    have := hne.card_pos
    omega
  refine ⟨c', v, ?_, hc', hv, hres⟩
  unfold evict_once
  simp only [hev, Option.bind_eq_bind, Option.bind_some, Option.pure_def]
  rw [whileLoop_stop]
  · rfl
  · cases reports
    · simp [hocc]
    · simp

theorem one_reported (hP : Contract P config Inv resident true) : Reports P none True Inv resident :=
  reports_of_evict hP.evict_n hP.evict

/-! ## The loop without reported victims

`Rb` is what was resident at the last re-probe: the batch since then has freed
`unobserved_freed` of the `needed` blocks. -/

structure Batching (Inv : σ → Prop) (resident : σ → Finset ObjId) (K : Int) (A R₀ Rb : Finset ObjId)
    (st : Stats) (a : Alloc σ) : Prop extends Freed Inv resident R₀ a.cache where
  batch : resident a.cache ⊆ Rb
  probed : Rb ⊆ R₀
  progress : a.progress = 0
  needed : a.needed = deficit K A Rb
  freed : a.unobserved_freed = (Rb.card : Int) - (resident a.cache).card
  short : a.unobserved_freed < a.needed
  alpha_resident : a.alpha_resident = A ∩ Rb
  self : a.stats.n_self_evictions = st.n_self_evictions + ((R₀ \ Rb) ∩ A).card
  unexpected : a.stats.n_unexpected_evictions = st.n_unexpected_evictions
  ret : a.ret = none

def Unreported (Inv : σ → Prop) (resident : σ → Finset ObjId) (K : Int) (A R₀ : Finset ObjId)
    (st : Stats) (a : Alloc σ) : Prop :=
  (∃ Rb, Batching Inv resident K A R₀ Rb st a) ∨
    (a.ret = some (.ok ()) ∧ Allocated True Inv resident K A R₀ st a)

theorem self_after_batch {A R0 Rb R : Finset ObjId} (h : R ⊆ Rb) (hb : Rb ⊆ R0) :
    ((R0 \ R) ∩ A).card = ((R0 \ Rb) ∩ A).card + ((A \ R) ∩ (A ∩ Rb)).card := by
  rw [← card_union_of_disjoint]
  · congr 1
    ext x
    simp only [mem_inter, mem_sdiff, mem_union]
    tauto
  · rw [Finset.disjoint_left]
    intro x hx hx'
    simp only [mem_inter, mem_sdiff] at hx hx'
    exact hx.1.2 hx'.2.2

theorem deficit_after_batch {K : Int} {A Rb R : Finset ObjId} (h : R ⊆ Rb)
    (hfreed : (Rb.card : Int) - R.card = deficit K A Rb) :
    deficit K A R = (((Rb \ R) ∩ A).card : Int) := by
  have hcard := card_sdiff_add_card_eq_card h
  have hsplit := card_split (A := A) (E := Rb \ R)
  rw [deficit_sub h]
  omega

theorem unreported_round (hP : Contract P config Inv resident false) {R0 Rb : Finset ObjId}
    {st : Stats} {a : Alloc σ} (hA : (request.alpha.card : Int) ≤ config.cache_size_blocks)
    (req_buf : Request)
    (ha : Batching Inv resident config.cache_size_blocks request.alpha R0 Rb st a) :
    ∃ a', allocate_round P config none req_buf request a = some a' ∧
      Unreported Inv resident config.cache_size_blocks request.alpha R0 st a' ∧
      (resident a'.cache).card < (resident a.cache).card := by
  have hneed := ha.needed
  have hfreed := ha.freed
  have hshort := ha.short
  have hcard := card_of_deficit (R := Rb) hA
  obtain ⟨c', v, hev, hc', hv, hres⟩ := evict_once_spec hP ha.inv (card_pos.1 (by omega))
    req_buf a.victims
  have hone : (resident c').card + 1 = (resident a.cache).card := by
    rw [hres]
    exact card_erase_add_one hv
  have hshrink : (resident c').card < (resident a.cache).card := by omega
  have hsub : resident c' ⊆ resident a.cache := hres ▸ erase_subset v _
  have hocc := hP.occupied c' hc'
  have hocc0 := hP.occupied a.cache ha.inv
  have hround : allocate_round P config none req_buf request a =
      some (unreported P config request { a with cache := c', victims := a.victims }
        (P.get_occupied_byte a.cache)) := by
    unfold allocate_round evict_round
    rw [hP.evict_n]
    simp [hev]
  refine ⟨_, hround, ?_⟩
  unfold unreported
  dsimp only
  rw [if_neg (by omega), hocc, hocc0]
  have hgone : request.alpha.filter (fun id => (!P.find c' id) = true) = request.alpha \ resident c' := by
    ext id
    simp [← hP.find c' id hc']
  split_ifs with hmore hdone
  · -- the batch goes on
    refine ⟨Or.inl ⟨Rb, { ha with toFreed := ⟨hc', hsub.trans ha.sub⟩, batch := hsub.trans ha.batch, freed := ?_, short := hmore }⟩, hshrink⟩
    show a.unobserved_freed + _ = (Rb.card : Int) - (resident c').card
    omega
  all_goals
    -- the batch is full: re-probe
    have hfull : (Rb.card : Int) - (resident c').card =
        deficit config.cache_size_blocks request.alpha Rb := by omega
    have hsub' := hsub.trans ha.batch
    have hlack := deficit_after_batch hsub' hfull
    have hself := self_after_batch (A := request.alpha) hsub' ha.probed
    have hremain := deficit_eq config.cache_size_blocks request.alpha (resident c')
    have hst : a.stats.n_self_evictions +
        (((request.alpha \ resident c') ∩ a.alpha_resident).card : Int) =
        st.n_self_evictions + ((R0 \ resident c') ∩ request.alpha).card := by
      rw [ha.self, ha.alpha_resident, hself]
      omega
  · rw [hgone] at hdone
    have hzero : deficit config.cache_size_blocks request.alpha (resident c') = 0 := by omega
    refine ⟨Or.inr ⟨rfl, ⟨hc', hsub.trans ha.sub⟩, hzero.le, fun _ => hzero, ?_, ha.unexpected, rfl⟩,
      hshrink⟩
    · rw [hgone]
      exact hst
  · rw [hgone] at hdone
    refine ⟨Or.inl ⟨resident c', ⟨hc', hsub.trans ha.sub⟩, subset_rfl, hsub'.trans ha.probed, rfl,
      ?_, by simp, ?_, ?_, ?_, ha.unexpected, ha.ret⟩, hshrink⟩
    · rw [hgone]
      exact hremain.symm
    · rw [hgone]
      show (0 : Int) < ((request.alpha \ resident c').card : Int) - _
      omega
    · rw [hgone, ha.alpha_resident]
      ext x
      simp only [mem_inter, mem_sdiff]
      tauto
    · rw [hgone]
      exact hst

variable {needed : Int}

theorem allocate_unreported (hP : Contract P config Inv resident false) (hc : Inv c)
    (hA : (request.alpha.card : Int) ≤ config.cache_size_blocks) (req_buf : Request) (m : Matched)
    (hm : m.resident = request.blocks.map (P.find c))
    (hneed : needed = deficit config.cache_size_blocks request.alpha (resident c))
    (hpos : 0 < needed) : ∃ a rb, allocate P config none c req_buf m request needed = some (a, rb) ∧
      Allocated True Inv resident config.cache_size_blocks request.alpha (resident c) m.stats a := by
  let I := Unreported Inv resident config.cache_size_blocks request.alpha (resident c) m.stats
  have hbody : ∀ a, I a → (a.ret.isNone && a.progress < a.needed) = true → ∃ a',
      allocate_round P config none (evict_request config req_buf request m.resident) request a =
        some a' ∧ I a' ∧ (resident a'.cache).card < (resident a.cache).card := by
    intro a ha hcond
    rcases ha with ⟨Rb, ha⟩ | ⟨hret, -⟩
    · exact unreported_round hP hA _ ha
    · simp [hret] at hcond
  have hstart : I { cache := c, stats := m.stats, needed := needed
                    alpha_resident := resident_blocks request m.resident } := by
    refine Or.inl ⟨resident c, ⟨hc, subset_rfl⟩, subset_rfl, subset_rfl, rfl, hneed, by simp, hpos, ?_,
      by simp, rfl, rfl⟩
    rw [hm, resident_blocks_spec]
    ext id
    simp [hP.find c id hc]
  obtain ⟨a, hloop, ha, hdone⟩ := whileLoop_total I (fun a => (resident a.cache).card) hbody
    (P.get_occupied_byte c + 1).toNat _ hstart (by
      show (resident c).card ≤ _
      rw [hP.occupied c hc]
      omega)
  rw [Bool.and_eq_false_iff, decide_eq_false_iff_not] at hdone
  refine ⟨a, _, by simp only [allocate, hloop, Option.bind_eq_bind]; rfl, ?_⟩
  rcases ha with ⟨Rb, ha⟩ | ⟨-, ha⟩
  · -- in a batch the loop does not end
    have h1 := ha.progress
    have h2 := ha.short
    have h3 := ha.freed
    have h4 := card_le_card ha.batch
    rcases hdone with hret | hge
    · simp [ha.ret] at hret
    · omega
  · exact ha

section

variable (hP : Contract P config Inv resident reports)
include hP

theorem allocate_spec (hc : Inv c)
    (hA : (request.alpha.card : Int) ≤ config.cache_size_blocks) (req_buf : Request) (m : Matched)
    (hm : m.resident = request.blocks.map (P.find c))
    (hneed : needed = deficit config.cache_size_blocks request.alpha (resident c))
    (hpos : 0 < needed) : ∃ a rb, allocate P config none c req_buf m request needed = some (a, rb) ∧
      Allocated True Inv resident config.cache_size_blocks request.alpha (resident c) m.stats a := by
  cases reports with
  | true => exact allocate_reported hP.toResidency (one_reported hP) hc hA req_buf m hneed hpos
  | false => exact allocate_unreported hP hc hA req_buf m hm hneed hpos

/-! ## Serving -/

theorem set_request_ctx_spec (hc : Inv c)
    (request : BlockRequest) :
    Inv (set_request_ctx P c request) ∧ resident (set_request_ctx P c request) = resident c := by
  unfold set_request_ctx
  split
  · exact hP.set_request_ctx _ ‹_› c _ hc
  · exact ⟨hc, rfl⟩

theorem record_request_spec (hc : Inv c)
    (request : BlockRequest) :
    ∃ c', record_request P c request = some c' ∧ Inv c' ∧ resident c' = resident c := by
  unfold record_request
  split
  · exact hP.record_request _ ‹_› c _ hc
  · exact ⟨c, rfl, hc, rfl⟩

/-- What a request that is not skipped leaves behind. The state `m` is the one between the
allocation and the accesses. -/
structure Served (P : CachePolicy σ) (config : SimulatorConfig) (Inv : σ → Prop)
    (resident : σ → Finset ObjId) (request : BlockRequest) (s s' : Simulator σ) : Prop where
  all : request.alpha ⊆ resident s'.cache
  fits : ((resident s'.cache).card : Int) ≤ config.cache_size_blocks
  unexpected : s'.stats.n_unexpected_evictions = s.stats.n_unexpected_evictions
  room : ∃ m, make_room P config s request = some (m, .ok ()) ∧
    RoomMade True Inv resident config.cache_size_blocks request.alpha s m ∧
    s'.stats.n_self_evictions = m.stats.n_self_evictions

theorem serve_spec
    (hpin : config.pin_request_blocks = false) {s : Simulator σ} (hs : Inv s.cache)
    (hskip : skips config request = false) (hcost : CostsFit config request) :
    ∃ s', serve P config s request = some (s', .ok ()) ∧ Inv s'.cache ∧
      Served P config Inv resident request s s' := by
  have hA : (request.alpha.card : Int) ≤ config.cache_size_blocks := by
    unfold skips at hskip
    simpa using hskip
  have hnone : pin_predicate config request = none := by
    unfold pin_predicate
    rw [hpin]
    rfl
  obtain ⟨m, hm, hroom⟩ := make_room_spec hP.toResidency (set_request_ctx_spec hP hs request) hcost
    (by
      intro c rb m needed hc hres hneed hpos
      rw [hnone]
      exact allocate_spec hP hc hA rb m hres hneed hpos)
  obtain ⟨c, hrec, hc, hres⟩ := record_request_spec hP hroom.inv request
  have hfits : ((request.alpha ∪ resident c).card : Int) ≤ config.cache_size_blocks := hres ▸ hroom.fits
  obtain ⟨s', hserve, hinv, hend, hst⟩ := serve_of_room hP.toResidency hP.toGets hskip hm hrec hc hfits
  refine ⟨s', hserve, hinv, hend ▸ subset_union_left, ?_, hst.unexpected.trans hroom.unexpected, m, hm, hroom, hst.self⟩
  rw [hend]
  exact hfits

end

/-- After any requests, `serve` returns true on the next one. If it is larger than the cache it
leaves the cache alone; otherwise all its blocks end up resident within the cache, no get evicts,
and the allocation threw out what was lacking from outside the request, plus `s` blocks of the
request that it counts as self-evictions. -/
theorem serve_keeps_contract (P : CachePolicy σ) (config : SimulatorConfig) (Inv : σ → Prop)
    (resident : σ → Finset ObjId) (reports : Bool) (hP : Contract P config Inv resident reports)
    (hpin : config.pin_request_blocks = false) (s₀ : Simulator σ) (h₀ : Inv s₀.cache)
    (requests : List BlockRequest)
    (hcosts : ∀ r ∈ requests, skips config r = false → CostsFit config r) :
    ∃ s, runs (serve_ok P config) s₀ requests = some s ∧ ∀ request : BlockRequest,
      (skips config request = true →
        ∃ s', serve P config s request = some (s', .ok ()) ∧ s'.cache = s.cache) ∧
      (skips config request = false → CostsFit config request →
        ∃ s', serve P config s request = some (s', .ok ()) ∧
          Served P config Inv resident request s s') := by
  have hstep : ∀ s r, Inv s.cache → (skips config r = false → CostsFit config r) →
      ∃ s', serve_ok P config s r = some s' ∧ Inv s'.cache := by
    intro s r hs hcost
    unfold serve_ok
    cases hskip : skips config r with
    | true =>
      obtain ⟨s', hserve, hcache⟩ := serve_skipped P hskip
      exact ⟨s', by rw [hserve], hcache ▸ hs⟩
    | false =>
      obtain ⟨s', hserve, hinv, -⟩ := serve_spec hP hpin hs hskip (hcost hskip)
      exact ⟨s', by rw [hserve], hinv⟩
  obtain ⟨s, hrun, hs⟩ := runs_total (fun s => Inv s.cache)
    (fun r => skips config r = false → CostsFit config r) hstep requests s₀ hcosts h₀
  refine ⟨s, hrun, fun request => ⟨fun hskip => serve_skipped P hskip, fun hskip hcost => ?_⟩⟩
  obtain ⟨s', hserve, -, hserved⟩ := serve_spec hP hpin hs hskip hcost
  exact ⟨s', hserve, hserved⟩

end

def fifo : CachePolicy (List ObjId) where
  find q id := decide (id ∈ q)
  get q req := some (if req.obj_id ∈ q then q else req.obj_id :: q, [])
  evict _ q _ := some (q.dropLast, q.getLast?.toList)
  get_occupied_byte q := q.length
  get_n_obj q := q.length

theorem fifo_contract (config : SimulatorConfig) : Contract fifo config List.Nodup List.toFinset true where
  evict_n := rfl
  find := by simp [fifo]
  occupied q hq := by simp [fifo, toFinset_card_of_nodup hq]
  evict := by
    intro q req hq hne
    have hq' : q ≠ [] := by
      rintro rfl
      simp at hne
    have hsplit := dropLast_append_getLast hq'
    have hperm : q.Perm (q.getLast hq' :: q.dropLast) := by
      nth_rewrite 1 [← hsplit]
      exact perm_append_singleton _ _
    obtain ⟨hnot, hnodup⟩ := nodup_cons.1 (hperm.nodup_iff.1 hq)
    refine ⟨q.dropLast, q.getLast hq', ?_, hnodup, by simp, ?_⟩
    · simp [fifo, getLast?_eq_some_getLast hq']
    · rw [toFinset_eq_of_perm _ _ hperm, toFinset_cons,
        erase_insert (by simpa using hnot)]
  get_hit := by
    intro q req hq hmem
    have hmem' : req.obj_id ∈ q := by simpa using hmem
    exact ⟨q, by simp [fifo, hmem'], hq, rfl⟩
  get_miss := by
    intro q req hq hmem _ _
    have hmem' : req.obj_id ∉ q := by simpa using hmem
    exact ⟨req.obj_id :: q, by simp [fifo, hmem'], nodup_cons.2 ⟨hmem', hq⟩, by simp⟩
  set_request_ctx := by simp [fifo]
  record_request := by simp [fifo]

theorem fifo_serves_two_requests :
    ∃ s s', runs (serve_ok fifo { cache_size_blocks := 3, pin_request_blocks := false }) { cache := [] }
        [{ blocks := [1, 2, 3] }] = some s ∧
      serve fifo { cache_size_blocks := 3, pin_request_blocks := false } s { blocks := [4, 1, 5] } =
        some (s', .ok ()) ∧
      Served fifo { cache_size_blocks := 3, pin_request_blocks := false } List.Nodup List.toFinset
        { blocks := [4, 1, 5] } s s' := by
  have hcost : ∀ r, CostsFit { cache_size_blocks := 3, pin_request_blocks := false } r := by
    intro r i _
    show (1 : Int) ≤ INT32_MAX
    decide
  obtain ⟨s, hrun, hnext⟩ := serve_keeps_contract fifo { cache_size_blocks := 3, pin_request_blocks := false }
    List.Nodup List.toFinset true (fifo_contract _) rfl { cache := [] } nodup_nil
    [{ blocks := [1, 2, 3] }] (fun r _ _ => hcost r)
  obtain ⟨s', hserve, hserved⟩ := (hnext { blocks := [4, 1, 5] }).2 (by decide) (hcost _)
  exact ⟨s, s', hrun, hserve, hserved⟩

end CacheSim.Prefixsim
