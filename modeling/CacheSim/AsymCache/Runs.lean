import CacheSim.AsymCache.Reals
import CacheSim.Prefixsim.Queues

/-!
# AsymCache under the simulator

While the keys are right, each eviction takes a resident of the least expected cost.
-/

namespace CacheSim.AsymCache

open Lib Prefixsim List Option AList

variable {D P : Type} [LinearOrder D] {F : Doubles D P} {order : Table ObjId (BlockMeta D) → List ObjId}
  {s t : State D P} {x : ObjId} {m : BlockMeta D} {q : Parameters} {time cost : D → ℝ} {params : P → Fitted}

/-! ## The policy -/

def policy (F : Doubles D P) (order : Table ObjId (BlockMeta D) → List ObjId) (stamp : ℚ → D) : CachePolicy (State D P) :=
  { queue_policy (fun _ => ops F order) (fun s => s.cache) with
    set_request_ctx := some fun s ctx => AsymCache_set_request_ctx s (stamp ctx.timestamp)
    record_request := some fun s ids => some (AsymCache_record_request F s ids) }

theorem peek_valid_reheaped (horder : ∀ t, (order t).Perm t.keys) {f : Bool} {w : Peek D P}
    (hpeek : peek_valid F order f s = some w) : Reheaped s w.s :=
  peek_valid_rounds (Reheaped s) (fun _ e ht _ _ => ht.refile horder f e) (.refl s) hpeek

theorem choose_victim_reheaped (horder : ∀ t, (order t).Perm t.keys) (hpos : 0 < s.n_resident) {v : Option ObjId}
    (h : choose_victim F order s = some (t, v)) : Reheaped (ready F order s) t := by
  unfold choose_victim at h
  rw [if_neg (by omega)] at h
  simp only [bind, bind_eq_some_iff] at h
  obtain ⟨w1, hpeek1, w2, hpeek2, h⟩ := h
  have hre : Reheaped (ready F order s) w2.s := (peek_valid_reheaped horder hpeek1).trans (peek_valid_reheaped horder hpeek2)
  split at h
  · cases h
    exact hre
  · simp only [bind_eq_some_iff] at h
    obtain ⟨w3, hpeek3, h⟩ := h
    have hre3 := (hre.trans (compact_spec horder w2.s).reheaped).trans (peek_valid_reheaped horder hpeek3)
    split at h
    · cases h
      exact hre3
    · simp only [bind_eq_some_iff] at h
      obtain ⟨w4, hpeek4, h⟩ := h
      cases h
      exact hre3.trans (peek_valid_reheaped horder hpeek4)

omit [LinearOrder D] in
theorem lookup_forget (s : State D P) (x y : ObjId) :
    (forget s x).metas.lookup y = if y = x then none else s.metas.lookup y := by
  unfold forget
  rcases hm : s.metas.lookup x with _ | m
  · split_ifs with hyx
    · rw [hyx, hm]
    · rfl
  · split_ifs with hyx
    · rw [hyx]
      exact lookup_erase x s.metas
    · exact lookup_erase_ne hyx

omit [LinearOrder D] in
theorem forget_rest (s : State D P) (x : ObjId) : (forget s x).now = s.now ∧ (forget s x).hooked = s.hooked ∧
    (forget s x).frozen = s.frozen ∧ (forget s x).fitted = s.fitted := by
  unfold forget
  split <;> exact ⟨rfl, rfl, rfl, rfl⟩

section

variable (horder : ∀ t, (order t).Perm t.keys)
include horder

theorem Inv.of_evict (h : Inv s) {u : State D P} (hev : AsymCache_evict F order s = some u) :
    ∃ t v o, choose_victim F order s = some (t, some v) ∧ Reheaped (AsymCache.ready F order s) t ∧ t.cache = s.cache ∧
      s.cache.q.lookup v = some o ∧ u = { forget t v with cache := t.cache.cache_remove_obj_base v o } ∧ Inv u := by
  by_cases hx : ∃ x, x ∈ s.cache.q
  · obtain ⟨x, hx⟩ := hx
    obtain ⟨t, v, hchoose, ht, hcache, hv⟩ := choose_victim_spec horder h hx
    obtain ⟨o, ho, hevict, hu⟩ := AsymCache_evict_of_choose hchoose ht (hcache ▸ hv)
    cases hev.symm.trans hevict
    exact ⟨t, v, o, hchoose, choose_victim_reheaped horder (h.n_resident_pos hx) hchoose, hcache, hcache ▸ ho, rfl, hu⟩
  · -- an empty cache: `ERROR`
    simp [AsymCache_evict, choose_victim_nil h (not_exists.1 hx)] at hev

theorem Inv.evict_sub (h : Inv s) (hev : AsymCache_evict F order s = some t) : ∀ y ∈ t.cache.q, y ∈ s.cache.q := by
  obtain ⟨u, v, o, -, -, hcache, -, rfl, -⟩ := h.of_evict horder hev
  exact fun y hy => hcache ▸ (mem_erase.1 hy).2

def incoming (F : Doubles D P) (s : State D P) (req : Request) : BlockMeta D :=
  { last_access := ((s.metas.lookup req.obj_id).map (·.last_access)).getD s.now, cost := F.ofInt req.obj_cost, resident := true }

omit [LinearOrder D] in
theorem AsymCache_insert_reheaped (s : State D P) (req : Request) : ∃ n,
    Reheaped { s with cache := s.cache.FIFO_insert req (), n_resident := n, metas := s.metas.insert req.obj_id (incoming F s req) }
      (AsymCache_insert F order s req) := by
  unfold AsymCache_insert incoming
  dsimp only
  by_cases hfrozen : s.frozen = true
  · rcases hm : s.metas.lookup req.obj_id with _ | m
    · rw [if_pos hfrozen]
      exact ⟨_, (Reheaped.refl _).push horder _ _⟩
    · rw [if_pos hfrozen]
      exact ⟨_, (Reheaped.refl _).push horder _ _⟩
  · rcases hm : s.metas.lookup req.obj_id with _ | m
    · rw [if_neg hfrozen]
      exact ⟨_, .refl _⟩
    · rw [if_neg hfrozen]
      exact ⟨_, .refl _⟩

omit [LinearOrder D] in
theorem AsymCache_insert_cache (s : State D P) (req : Request) :
    (AsymCache_insert F order s req).cache = s.cache.FIFO_insert req () := by
  obtain ⟨n, hre⟩ := AsymCache_insert_reheaped horder s req
  exact hre.cache.1

end

theorem queued_gets (F : Doubles D P) (horder : ∀ t, (order t).Perm t.keys) (K : Int) :
    QueuedGets (fun _ => ops F order) (fun s => s.cache) K fun s => Inv s ∧ Blocks K s.cache where
  blocks _ h := h.2
  can_insert _ _ := rfl
  occupied _ := rfl
  obj_md_size _ := rfl
  cache_size _ := rfl
  hit := by
    rintro s req ⟨hs, hb⟩ hin
    have hcount : Inv ((ops F order).count_req s) := hs.count_req
    obtain ⟨hinv, hcache, hhit⟩ := hcount.find (F := F) horder req
    have hfind : (ops F order).find ((ops F order).count_req s) req =
        some ((AsymCache_find F order ((ops F order).count_req s) req).1, true) := by
      rw [← hhit.2 hin]
      rfl
    refine ⟨_, hfind, ⟨hinv, ?_⟩, fun x => ?_⟩
    · rw [hcache]
      exact hb.count_req
    · rw [hcache]
      rfl
  miss := by
    rintro s req ⟨hs, hb⟩ hout
    have hcount : Inv ((ops F order).count_req s) := hs.count_req
    obtain ⟨hinv, hcache, hhit⟩ := hcount.find (F := F) horder req
    have hfind : (ops F order).find ((ops F order).count_req s) req =
        some ((AsymCache_find F order ((ops F order).count_req s) req).1, false) := by
      rw [← Bool.eq_false_iff.2 fun hit => hout (hhit.1 hit)]
      rfl
    refine ⟨_, hfind, ⟨hinv, ?_⟩, ?_⟩
    · rw [hcache]
      exact hb.count_req
    · rw [hcache]
      rfl
  insert := by
    rintro s req ⟨hs, hb⟩ hout hsize
    have hcache := AsymCache_insert_cache (F := F) horder s req
    refine ⟨_, rfl, ⟨hs.insert horder hout, ?_⟩, fun x => ?_⟩
    · rw [hcache]
      exact hb.insert _ hout hsize
    · rw [hcache]
      exact mem_insert _

omit [LinearOrder D] in
theorem record_block_cache (s : State D P) (x : ObjId) : (record_block F s x).cache = s.cache ∧
    (record_block F s x).now = s.now ∧ (record_block F s x).hooked = s.hooked ∧ (record_block F s x).frozen = s.frozen ∧
    (record_block F s x).fitted = s.fitted := by
  unfold record_block
  split
  · unfold observe_gap
    split_ifs <;> exact ⟨rfl, rfl, rfl, rfl, rfl⟩
  · exact ⟨rfl, rfl, rfl, rfl, rfl⟩

omit [LinearOrder D] in
theorem record_request_cache (s : State D P) (ids : List ObjId) : (AsymCache_record_request F s ids).cache = s.cache ∧
    (AsymCache_record_request F s ids).hooked = true := by
  have hfold : ∀ s : State D P, (ids.foldl (record_block F) s).cache = s.cache ∧ (ids.foldl (record_block F) s).hooked = s.hooked := by
    induction ids with
    | nil => exact fun _ => ⟨rfl, rfl⟩
    | cons x ids ih =>
      intro s
      obtain ⟨hcache, -, hhooked, -⟩ := record_block_cache s x
      exact ⟨(ih _).1.trans hcache, (ih _).2.trans hhooked⟩
  exact hfold { s with hooked := true }

theorem heedless (F : Doubles D P) (horder : ∀ t, (order t).Perm t.keys) (stamp : ℚ → D) (config : SimulatorConfig) :
    Heedless (policy F order stamp) config (fun s => Inv s ∧ Blocks config.cache_size_blocks s.cache)
      fun s => s.cache.q.keys.toFinset where
  find s id _ := by simp [policy, queue_policy]
  occupied s hs := hs.2.occupied
  evict_n := rfl
  get_hit := (queued_gets F horder config.cache_size_blocks).gets.get_hit
  get_miss := (queued_gets F horder config.cache_size_blocks).gets.get_miss
  evict := by
    rintro pin s req ⟨hs, hb⟩ ⟨x, hx⟩
    obtain ⟨u, -, -, hevict, -⟩ := hs.evict (F := F) horder (mem_keys.2 (mem_toFinset.1 hx))
    obtain ⟨t, v, o, -, -, hcache, ho, rfl, hinv⟩ := hs.of_evict horder hevict
    obtain ⟨hreport, hmem, hres⟩ := queue_evict_one (fun _ => ops F order) (fun s => s.cache) pin req hevict
      (Table.mem_of_lookup ho) fun x => hcache ▸ mem_erase
    exact ⟨_, v, hreport, ⟨hinv, hcache.symm ▸ hb.remove ho⟩, hmem, hres⟩
  set_request_ctx := by
    rintro f hf s ctx ⟨hs, hb⟩
    cases hf
    exact ⟨⟨{ hs with }, hb⟩, rfl⟩
  record_request := by
    rintro f hf s ids ⟨hs, hb⟩
    cases hf
    have hcache := (record_request_cache (F := F) s ids).1
    refine ⟨_, rfl, ⟨hs.record_request ids, ?_⟩, ?_⟩
    · rw [hcache]
      exact hb
    · rw [hcache]

/-! ## The phases of a request -/

structure Timely (F : Doubles D P) (time cost : D → ℝ) (d : D) (s : State D P) : Prop where
  inv : Inv s
  now : s.now = d
  fitted : s.frozen = true → ∃ gaps, s.fitted = F.fit gaps
  past : ∀ x m, s.metas.lookup x = some m → time m.last_access ≤ time d
  costs : ∀ x m, s.metas.lookup x = some m → 1 ≤ cost m.cost

variable {d : D}

omit [LinearOrder D] in
theorem ready_rest (hfitted : s.frozen = true → ∃ gaps, s.fitted = F.fit gaps) (horder : ∀ t, (order t).Perm t.keys) :
    (∃ gaps, (ready F order s).fitted = F.fit gaps) ∧ (ready F order s).now = s.now ∧ (ready F order s).metas = s.metas ∧
      (ready F order s).hooked = s.hooked := by
  unfold ready
  split_ifs with hfrozen
  · exact ⟨hfitted hfrozen, rfl, rfl, rfl⟩
  · have hre := (compact_spec (F := F) horder { s with fitted := F.fit s.gaps, gaps := [], frozen := true }).reheaped
    unfold freeze
    rw [hre]
    exact ⟨⟨s.gaps, rfl⟩, rfl, rfl, rfl⟩

theorem Timely.evict (horder : ∀ t, (order t).Perm t.keys) (h : Timely F time cost d s) (hev : AsymCache_evict F order s = some t) :
    Timely F time cost d t ∧ t.hooked = s.hooked := by
  obtain ⟨u, v, o, -, hre, -, -, rfl, hinv⟩ := h.inv.of_evict horder hev
  obtain ⟨hfit, hnow, hmetas, hhooked⟩ := ready_rest h.fitted horder
  obtain ⟨hnow', hhooked', -, hfitted'⟩ := forget_rest u v
  have hold : ∀ y n, (forget u v).metas.lookup y = some n → s.metas.lookup y = some n := by
    intro y n hn
    rw [lookup_forget] at hn
    split_ifs at hn
    rw [← hmetas, ← hre.metas]
    exact hn
  refine ⟨⟨hinv, ?_, fun _ => ?_, fun y n hn => h.past y n (hold y n hn), fun y n hn => h.costs y n (hold y n hn)⟩, ?_⟩
  · rw [hnow', hre]
    exact hnow.trans h.now
  · rw [hfitted', hre]
    exact hfit
  · rw [hhooked', hre]
    exact hhooked

omit [LinearOrder D] in
theorem Timely.record_block (hone : 1 ≤ cost F.one) (h : Timely F time cost d s) (x : ObjId) :
    Timely F time cost d (record_block F s x) := by
  obtain ⟨-, hnow, -, hfrozen, hfitted⟩ := record_block_cache s x
  have hmetas : ∃ n, (AsymCache.record_block F s x).metas = s.metas.insert x n ∧ n.last_access = s.now ∧ 1 ≤ cost n.cost := by
    unfold AsymCache.record_block
    rcases hm : s.metas.lookup x with _ | m
    · exact ⟨_, rfl, rfl, hone⟩
    · obtain ⟨-, hg, -⟩ := h.inv.observe_gap (F.sub s.now m.last_access)
      refine ⟨{ m with last_access := s.now }, ?_, rfl, h.costs x m hm⟩
      have hgnow : (observe_gap F s (F.sub s.now m.last_access)).now = s.now := by
        unfold observe_gap
        split_ifs <;> rfl
      dsimp only
      rw [hg, hgnow]
  obtain ⟨n, hins, hlast, hcost⟩ := hmetas
  have hcases : ∀ y k, (AsymCache.record_block F s x).metas.lookup y = some k → y = x ∧ k = n ∨ s.metas.lookup y = some k := by
    intro y k hk
    rw [hins] at hk
    rcases eq_or_ne y x with rfl | hne
    · rw [lookup_insert, some.injEq] at hk
      exact .inl ⟨rfl, hk.symm⟩
    · rw [lookup_insert_ne hne] at hk
      exact .inr hk
  refine ⟨h.inv.record_block x, hnow.trans h.now, ?_, ?_, ?_⟩
  · rw [hfrozen, hfitted]
    exact h.fitted
  · intro y k hk
    rcases hcases y k hk with ⟨-, rfl⟩ | hk
    · rw [hlast, h.now]
    · exact h.past y k hk
  · intro y k hk
    rcases hcases y k hk with ⟨-, rfl⟩ | hk
    · exact hcost
    · exact h.costs y k hk

omit [LinearOrder D] in
theorem Timely.record_request (hone : 1 ≤ cost F.one) (h : Timely F time cost d s) (ids : List ObjId) :
    Timely F time cost d (AsymCache_record_request F s ids) := by
  have hfold : ∀ s, Timely F time cost d s → Timely F time cost d (ids.foldl (AsymCache.record_block F) s) := by
    induction ids with
    | nil => exact fun _ hs => hs
    | cons x ids ih => exact fun s hs => ih _ (hs.record_block hone x)
  exact hfold { s with hooked := true }
    { h with inv := { h.inv with } }

variable {req : Request}

theorem Timely.insert (horder : ∀ t, (order t).Perm t.keys) (h : Timely F time cost d s)
    (hx : req.obj_id ∉ s.cache.q) (hcost : 1 ≤ cost (F.ofInt req.obj_cost)) :
    Timely F time cost d (AsymCache_insert F order s req) := by
  obtain ⟨n, hre⟩ := AsymCache_insert_reheaped horder s req
  have hlast : time (incoming F s req).last_access ≤ time d := by
    unfold incoming
    rcases hm : s.metas.lookup req.obj_id with _ | m
    · exact (congrArg time h.now).le
    · exact h.past _ m hm
  have hcases : ∀ y k, (AsymCache_insert F order s req).metas.lookup y = some k →
      k = incoming F s req ∨ s.metas.lookup y = some k := by
    intro y k hk
    rw [hre.metas] at hk
    rcases eq_or_ne y req.obj_id with rfl | hne
    · exact .inl (some.inj ((lookup_insert _).symm.trans hk)).symm
    · exact .inr ((lookup_insert_ne hne).symm.trans hk)
  refine ⟨h.inv.insert horder hx, ?_, ?_, ?_, ?_⟩
  · rw [hre]
    exact h.now
  · rw [hre]
    exact h.fitted
  · intro y k hk
    rcases hcases y k hk with rfl | hk
    · exact hlast
    · exact h.past y k hk
  · intro y k hk
    rcases hcases y k hk with rfl | hk
    · exact hcost
    · exact h.costs y k hk

theorem AsymCache_find_hooked (h : s.hooked = true) (req : Request) : AsymCache_find F order ((ops F order).count_req s) req =
    ((ops F order).count_req s, (s.cache.q.lookup req.obj_id).isSome) := by
  have hcount : ((ops F order).count_req s).hooked = true := h
  unfold AsymCache_find
  rw [if_pos hcount]
  rfl

variable {stamp : ℚ → D}

theorem Timely.get (horder : ∀ t, (order t).Perm t.keys) (h : Timely F time cost d s) (hooked : s.hooked = true)
    (hcost : 1 ≤ cost (F.ofInt req.obj_cost)) {vs : List ObjId} (hget : (policy F order stamp).get s req = some (t, vs)) :
    Timely F time cost d t ∧ t.hooked = true := by
  let Miss : State D P → Prop := fun u => (Timely F time cost d u ∧ u.hooked = true) ∧ req.obj_id ∉ u.cache.q
  refine queue_get_inv (fun _ => ops F order) (fun s => s.cache) (fun u => u = s) Miss
    (fun u => Timely F time cost d u ∧ u.hooked = true) ?_ ?_ ?_ ?_ rfl hget
  · rintro u u' hit rfl hfind
    have hcount : Timely F time cost d ((ops F order).count_req u) := { h with inv := h.inv.count_req }
    cases (AsymCache_find_hooked hooked req).symm.trans (some.inj hfind)
    split_ifs with hit
    · exact ⟨hcount, hooked⟩
    · exact ⟨⟨hcount, hooked⟩, fun hmem => hit (lookup_isSome.2 hmem)⟩
  · rintro u u' admitted hu hcan
    cases hcan
    split_ifs
    · exact hu
    · exact hu.1
  · rintro u u' ⟨⟨hu, hooked⟩, hx⟩ hev
    obtain ⟨hu', hsame⟩ := hu.evict horder hev
    exact ⟨⟨hu', hsame.trans hooked⟩, fun hmem => hx (hu.inv.evict_sub horder hev _ hmem)⟩
  · rintro u u' ⟨⟨hu, hooked⟩, hx⟩ hins
    cases hins
    obtain ⟨n, hre⟩ := AsymCache_insert_reheaped horder u req
    refine ⟨hu.insert horder hx hcost, ?_⟩
    rw [hre]
    exact hooked

/-! ## The victim -/

noncomputable def cost_now (time cost : D → ℝ) (params : P → Fitted) (s : State D P) (m : BlockMeta D) : ℝ :=
  (params s.fitted).expected_cost (time s.now) (time m.last_access) (cost m.cost)

theorem pick_least (hF : F.Exact q time cost params) {c1 c2 : Option ObjId} {c v : ObjId} {n : BlockMeta D}
    (hv : pick F s c1 c2 = some v) (hm : s.metas.lookup v = some m) (hc : c1 = some c ∨ c2 = some c)
    (hn : s.metas.lookup c = some n) : cost_now time cost params s m ≤ cost_now time cost params s n := by
  have hle : ∀ x y k l, s.metas.lookup x = some k → s.metas.lookup y = some l →
      (F.le (expected_cost F s x) (expected_cost F s y) = true ↔ cost_now time cost params s k ≤ cost_now time cost params s l) := by
    intro x y k l hk hl
    unfold expected_cost
    rw [hk, hl]
    exact hF.le _ _ _ _ _ _
  have hself : v = c → cost_now time cost params s m ≤ cost_now time cost params s n := by
    rintro rfl
    cases hm.symm.trans hn
    exact le_refl _
  rcases c1 with _ | c1 <;> rcases c2 with _ | c2
  · cases hv
  · cases hc.resolve_left (by simp)
    exact hself (some.inj hv).symm
  · cases hc.resolve_right (by simp)
    exact hself (some.inj hv).symm
  · simp only [pick, some.injEq] at hv hc
    split_ifs at hv with hcheaper
    · rcases hc with rfl | rfl
      · exact hself hv.symm
      · subst hv
        exact (hle _ _ _ _ hm hn).1 hcheaper
    · rcases hc with rfl | rfl
      · subst hv
        exact (lt_of_not_ge fun h => hcheaper ((hle _ _ _ _ hn hm).2 h)).le
      · exact hself hv.symm

theorem cost_now_le (hF : F.Exact q time cost params) (hslope : 1 ≤ q.slope_ratio) {gaps : List D} (hfit : s.fitted = F.fit gaps)
    {m n : BlockMeta D} (hm : time m.last_access ≤ time s.now ∧ 1 ≤ cost m.cost)
    (hn : time n.last_access ≤ time s.now ∧ 1 ≤ cost n.cost) (hsame : young F s m = young F s n)
      (hkey : key_now F s m ≤ key_now F s n) :
    cost_now time cost params s m ≤ cost_now time cost params s n := by
  have hyoung : ∀ m : BlockMeta D, young F s m = decide (tau_of (time s.now) (time m.last_access) < (q.fit (gaps.map time)).L) := by
    intro m
    rw [Bool.eq_iff_iff, decide_eq_true_iff, ← hF.fit, ← hfit]
    exact hF.young _ _ _
  unfold key_now at hkey
  rw [← hsame, hF.key, hfit, hF.fit] at hkey
  unfold cost_now
  rw [hfit, hF.fit]
  exact (expected_cost_le_iff hslope hm.1 hm.2 hn.1 hn.2 (hyoung m) (hsame ▸ hyoung n)).2 hkey

theorem ready_keyed (horder : ∀ t, (order t).Perm t.keys) (h : s.frozen = true → Keyed F s) : Keyed F (ready F order s) := by
  unfold ready
  split_ifs with hfrozen
  · exact h hfrozen
  · exact (compact_spec horder { s with fitted := F.fit s.gaps, gaps := [], frozen := true }).keyed

theorem Timely.takes_least (hF : F.Exact q time cost params) (hslope : 1 ≤ q.slope_ratio) (horder : ∀ t, (order t).Perm t.keys)
    (h : Timely F time cost d s) (hev : AsymCache_evict F order s = some t) :
    ∃ v m, s.metas.lookup v = some m ∧ v ∈ s.cache.q ∧ (∀ x, x ∈ t.cache.q ↔ x ≠ v ∧ x ∈ s.cache.q) ∧
      ((s.frozen = true → Keyed F s) → ∀ x ∈ s.cache.q, ∀ n, s.metas.lookup x = some n →
        cost_now time cost params (ready F order s) m ≤ cost_now time cost params (ready F order s) n) := by
  obtain ⟨u, v, o, hchoose, -, hcache, ho, rfl, -⟩ := h.inv.of_evict horder hev
  have hv : v ∈ s.cache.q := Table.mem_of_lookup ho
  obtain ⟨m, hm, -⟩ := (h.inv.listed v).1 hv
  refine ⟨v, m, hm, hv, fun x => hcache ▸ mem_erase, fun hkeyed x hx n hn => ?_⟩
  obtain ⟨⟨gaps, hfit⟩, hnow, hmetas, -⟩ := ready_rest h.fitted horder
  obtain ⟨u', v', c1, c2, hchoose', -, hcand1, hcand2, hpick⟩ := h.inv.choose_keyed horder (ready_keyed horder hkeyed) hx
  cases hchoose.symm.trans hchoose'
  have hfacts : ∀ y k, s.metas.lookup y = some k → time k.last_access ≤ time (ready F order s).now ∧ 1 ≤ cost k.cost := by
    intro y k hk
    rw [hnow, h.now]
    exact ⟨h.past y k hk, h.costs y k hk⟩
  have hres : n.resident = true := by
    obtain ⟨n', hn', hr'⟩ := (h.inv.listed x).1 hx
    cases hn.symm.trans hn'
    exact hr'
  -- the candidate of the block's branch costs no more than the block
  obtain ⟨c, k, hc, hk, hle⟩ : ∃ c k, (c1 = some c ∨ c2 = some c) ∧ s.metas.lookup c = some k ∧
      cost_now time cost params (ready F order s) k ≤ cost_now time cost params (ready F order s) n := by
    cases hyoung : young F (ready F order s) n with
    | true =>
      obtain ⟨c, k, hc, hk, hkey⟩ := hcand1.least x n (hmetas ▸ hn) hres hyoung
      obtain ⟨k', hk', -, hbranch⟩ := hcand1.resident c hc
      cases hk.symm.trans hk'
      rw [hmetas] at hk
      exact ⟨c, k, .inl hc, hk, cost_now_le hF hslope hfit (hfacts c k hk) (hfacts x n hn) (hbranch.trans hyoung.symm) hkey⟩
    | false =>
      obtain ⟨c, k, hc, hk, hkey⟩ := hcand2.least x n (hmetas ▸ hn) hres hyoung
      obtain ⟨k', hk', -, hbranch⟩ := hcand2.resident c hc
      cases hk.symm.trans hk'
      rw [hmetas] at hk
      exact ⟨c, k, .inr hc, hk, cost_now_le hF hslope hfit (hfacts c k hk) (hfacts x n hn) (hbranch.trans hyoung.symm) hkey⟩
  exact (pick_least hF hpick (hmetas ▸ hm) hc (hmetas ▸ hk)).trans hle

/-! ## A run -/

def TakesLeast (F : Doubles D P) (order : Table ObjId (BlockMeta D) → List ObjId) (time cost : D → ℝ) (params : P → Fitted)
    (s : State D P) : Op → Prop
  | .evict _ _ => ∃ t v m, AsymCache_evict F order s = some t ∧ s.metas.lookup v = some m ∧ v ∈ s.cache.q ∧
      (∀ x, x ∈ t.cache.q ↔ x ≠ v ∧ x ∈ s.cache.q) ∧ ((s.frozen = true → Keyed F s) → ∀ x ∈ s.cache.q, ∀ n,
        s.metas.lookup x = some n → cost_now time cost params (ready F order s) m ≤ cost_now time cost params (ready F order s) n)
  | _ => True

def AllLeast (F : Doubles D P) (order : Table ObjId (BlockMeta D) → List ObjId) (time cost : D → ℝ) (params : P → Fitted)
    (log : CallLog (State D P)) : Prop := ∀ c ∈ log, TakesLeast F order time cost params c.1 c.2

theorem AllLeast.snoc {log : CallLog (State D P)} {o : Op} (h : AllLeast F order time cost params log)
    (ho : TakesLeast F order time cost params s o) : AllLeast F order time cost params (log ++ [(s, o)]) := by
  intro c hc
  rcases mem_append.1 hc with hc | hc
  · exact h c hc
  · cases mem_singleton.1 hc
    exact ho

structure Between (F : Doubles D P) (time cost : D → ℝ) (d : D) (s : State D P) : Prop where
  inv : Inv s
  fitted : s.frozen = true → ∃ gaps, s.fitted = F.fit gaps
  past : ∀ x m, s.metas.lookup x = some m → time m.last_access ≤ time d
  costs : ∀ x m, s.metas.lookup x = some m → 1 ≤ cost m.cost

omit [LinearOrder D] in
theorem Timely.between (h : Timely F time cost d s) : Between F time cost d s := { h with }

theorem Between.serve (hF : F.Exact q time cost params) (hslope : 1 ≤ q.slope_ratio) (horder : ∀ t, (order t).Perm t.keys)
    {config : SimulatorConfig} {s s' : Simulator (State D P × CallLog (State D P))} {request : BlockRequest}
    {ok : Result} (hs : Between F time cost (stamp request.timestamp) s.cache.1) (hlog : AllLeast F order time cost params s.cache.2)
    (hcost : ∀ i < request.blocks.length, 1 ≤ config.cost_model i)
    (h : serve (recorded (policy F order stamp)) config s request = some (s', ok)) :
    Between F time cost (stamp request.timestamp) s'.cache.1 ∧ AllLeast F order time cost params s'.cache.2 := by
  cases hskip : skips config request with
  | true =>
    obtain ⟨t, hserve, hcache⟩ := serve_skipped (recorded (policy F order stamp)) hskip
    cases h.symm.trans hserve
    rw [hcache]
    exact ⟨hs, hlog⟩
  | false =>
    let J : State D P × CallLog (State D P) → Prop := fun u =>
      Timely F time cost (stamp request.timestamp) u.1 ∧ AllLeast F order time cost params u.2
    let K : State D P × CallLog (State D P) → Prop := fun u => J u ∧ u.1.hooked = true
    have hctx : J (set_request_ctx (recorded (policy F order stamp)) s.cache request) :=
      ⟨{ hs with inv := { hs.inv with }, now := rfl },
        hlog.snoc trivial⟩
    have hend : J s'.cache ∨ K s'.cache := by
      refine serve_phases hctx ?_ ?_ ?_ hskip h
      · rintro u o u' ho ⟨hu, hall⟩ hstep
        rw [op_recorded] at hstep
        obtain ⟨c, hc, rfl⟩ := map_eq_some_iff.1 hstep
        obtain ⟨pin, req, rfl, hev⟩ := evict_of_op (fun _ => ops F order) (fun s => s.cache) (policy F order stamp) rfl rfl ho hc
        obtain ⟨v, m, hleast⟩ := hu.takes_least hF hslope horder hev
        exact ⟨(hu.evict horder hev).1, hall.snoc ⟨c, v, m, hev, hleast⟩⟩
      · rintro u u' ⟨hu, hall⟩ hrec
        cases hrec
        exact ⟨⟨hu.record_request hF.one.ge _, hall.snoc trivial⟩, (record_request_cache u.1 request.blocks).2⟩
      · rintro u u' i hi ⟨⟨hu, hall⟩, hooked⟩ hget
        obtain ⟨c, hc, rfl⟩ := map_eq_some_iff.1 hget
        obtain ⟨⟨w, vs⟩, hw, rfl⟩ := map_eq_some_iff.1 hc
        have hpos : 1 ≤ cost (F.ofInt (fill_request config request i).obj_cost) := by
          show 1 ≤ cost (F.ofInt (config.cost_model i))
          have hone := hcost i hi
          rw [hF.ofInt _ (by omega)]
          exact_mod_cast hone
        obtain ⟨hu', hooked'⟩ := hu.get horder hooked hpos hw
        exact ⟨⟨hu', hall.snoc trivial⟩, hooked'⟩
    rcases hend with ⟨hu, hall⟩ | ⟨⟨hu, hall⟩, -⟩
    · exact ⟨hu.between, hall⟩
    · exact ⟨hu.between, hall⟩

/-- Every run returns, its gets evict nothing, and each eviction takes a resident, of the least expected
cost when the keys are right before it. -/
theorem AsymCache_evicts_least (F : Doubles D P) (q : Parameters) (time cost : D → ℝ) (params : P → Fitted)
    (hF : F.Exact q time cost params) (hslope : 1 ≤ q.slope_ratio) (order : Table ObjId (BlockMeta D) → List ObjId)
    (horder : ∀ t, (order t).Perm t.keys) (stamp : ℚ → D) (config : SimulatorConfig) (requests : List BlockRequest)
    (hstamp : ∀ r ∈ requests, time (stamp r.timestamp) = r.timestamp)
    (hfit : ∀ r ∈ requests, skips config r = false → CostsFit config r)
    (hcosts : ∀ r ∈ requests, ∀ i < r.blocks.length, 1 ≤ config.cost_model i)
    (htimes : requests.Pairwise fun r r' => r.timestamp ≤ r'.timestamp) :
    ∃ s, runs (serve_ok (recorded (policy F order stamp)) config)
      { cache := (AsymCache_init F config.cache_size_blocks, []) } requests =
        some s ∧ QuietGets (policy F order stamp) s.cache.2 ∧
      ∀ s' pin req, (s', Op.evict pin req) ∈ s.cache.2 →
        ∃ t v m, AsymCache_evict F order s' = some t ∧ s'.metas.lookup v = some m ∧ v ∈ s'.cache.q ∧
          (∀ x, x ∈ t.cache.q ↔ x ≠ v ∧ x ∈ s'.cache.q) ∧ ((s'.frozen = true → Keyed F s') → ∀ x ∈ s'.cache.q, ∀ n,
            s'.metas.lookup x = some n →
              cost_now time cost params (ready F order s') m ≤ cost_now time cost params (ready F order s') n) := by
  have hrun : ∀ (requests : List BlockRequest) (s : Simulator (State D P × CallLog (State D P))),
      (∀ r ∈ requests, time (stamp r.timestamp) = r.timestamp) → (∀ r ∈ requests, skips config r = false → CostsFit config r) →
      (∀ r ∈ requests, ∀ i < r.blocks.length, 1 ≤ config.cost_model i) →
      requests.Pairwise (fun r r' => r.timestamp ≤ r'.timestamp) →
      (Inv s.cache.1 ∧ Blocks config.cache_size_blocks s.cache.1.cache) ∧ QuietGets (policy F order stamp) s.cache.2 →
      AllLeast F order time cost params s.cache.2 → (∀ r ∈ requests, Between F time cost (stamp r.timestamp) s.cache.1) →
      ∃ t, runs (serve_ok (recorded (policy F order stamp)) config) s requests = some t ∧ QuietGets (policy F order stamp) t.cache.2 ∧
        AllLeast F order time cost params t.cache.2 := by
    intro requests
    induction requests with
    | nil => exact fun s _ _ _ _ hq hall _ => ⟨s, rfl, hq.2, hall⟩
    | cons request requests ih =>
      intro s hstamp hfit hcosts htimes hs hall hbetween
      obtain ⟨hfirst, hrest⟩ := pairwise_cons.1 htimes
      obtain ⟨t, hserve, ht⟩ := (heedless F horder stamp config).recorded.serve hs (hfit request mem_cons_self)
      obtain ⟨hb, hall'⟩ := (hbetween request mem_cons_self).serve hF hslope horder hall (hcosts request mem_cons_self)
        (serve_of_serve_ok hserve)
      have hlater : ∀ r ∈ requests, Between F time cost (stamp r.timestamp) t.cache.1 := by
        intro r hr
        have hle : time (stamp request.timestamp) ≤ time (stamp r.timestamp) := by
          rw [hstamp request mem_cons_self, hstamp r (mem_cons_of_mem _ hr)]
          exact_mod_cast hfirst r hr
        exact { hb with past := fun x m hm => (hb.past x m hm).trans hle }
      obtain ⟨u, hu, hquiet, hleast⟩ := ih t (fun r hr => hstamp r (mem_cons_of_mem _ hr))
        (fun r hr => hfit r (mem_cons_of_mem _ hr)) (fun r hr => hcosts r (mem_cons_of_mem _ hr)) hrest ht hall' hlater
      exact ⟨u, by simp [runs_cons, hserve, hu], hquiet, hleast⟩
  obtain ⟨s, hs, hquiet, hall⟩ := hrun requests { cache := (AsymCache_init F config.cache_size_blocks, []) } hstamp hfit hcosts htimes
    ⟨⟨init_inv _, Blocks.init _⟩, by simp [QuietGets]⟩ (by simp [AllLeast])
    fun r _ => ⟨init_inv _, by simp [AsymCache_init], by simp [AsymCache_init], by simp [AsymCache_init]⟩
  exact ⟨s, hs, hquiet, fun s' pin req hin => hall (s', .evict pin req) hin⟩

def two_blocks : SimulatorConfig := { cache_size_blocks := 2, cost_model := fun i => if i = 0 then 1 else 8 }

def seconds (timestamp : ℚ) : Nat := timestamp.num.toNat

theorem two_blocks_cost (i : Nat) : 1 ≤ two_blocks.cost_model i ∧ two_blocks.cost_model i ≤ INT32_MAX := by
  unfold two_blocks
  dsimp only
  split_ifs <;> decide

theorem AsymCache_evicts_least_of_three : ∃ s s' pin req v m,
    runs (serve_ok (recorded (policy .powers (fun t => t.keys) seconds)) two_blocks) { cache := (AsymCache_init .powers 2, []) }
        [{ blocks := [1, 2] }, { blocks := [3] }] = some s ∧
      (s', Op.evict pin req) ∈ s.cache.2 ∧ s'.metas.lookup v = some m ∧ ∀ x ∈ s'.cache.q, ∀ n, s'.metas.lookup x = some n →
        cost_now (↑) (↑) Fitted.of_lifespan (ready .powers (fun t => t.keys) s') m ≤
          cost_now (↑) (↑) Fitted.of_lifespan (ready .powers (fun t => t.keys) s') n := by
  obtain ⟨s, hs, ⟨s', o⟩, hc, hop, hfrozen⟩ : ∃ s,
      runs (serve_ok (recorded (policy .powers (fun t => t.keys) seconds)) two_blocks) { cache := (AsymCache_init .powers 2, []) }
        [{ blocks := [1, 2] }, { blocks := [3] }] = some s ∧
      ∃ c ∈ s.cache.2, (match c.2 with | .evict _ _ => true | _ => false) = true ∧ c.1.frozen = false := by decide +kernel
  obtain ⟨t, ht, -, hleast⟩ := AsymCache_evicts_least .powers .default (↑) (↑) Fitted.of_lifespan Doubles.powers_exact
    (by norm_num [Parameters.default]) (fun t => t.keys) (fun _ => .refl _)
      seconds two_blocks [{ blocks := [1, 2] }, { blocks := [3] }]
    (by simp [seconds]) (fun _ _ _ i _ => (two_blocks_cost i).2) (fun _ _ i _ => (two_blocks_cost i).1) (by simp)
  cases hs.symm.trans ht
  cases o with
  | evict pin req =>
    obtain ⟨-, v, m, -, hm, -, -, hmin⟩ := hleast s' pin req hc
    refine ⟨s, s', pin, req, v, m, hs, hc, hm, hmin fun hfr => ?_⟩
    cases hfr.symm.trans hfrozen
  | _ => cases hop

/-- Blocks 2 and 3 were last accessed at 0 and 360. At 360 block 2, of cost 8, is still on the first heap
with a larger key than block 3, which is evicted. -/
theorem evicts_dearer_block : Doubles.powers.Exact .default (↑) (↑) Fitted.of_lifespan ∧ ∃ s c t m n,
    runs (serve_ok (recorded (policy .powers (fun t => t.keys) seconds)) two_blocks) { cache := (AsymCache_init .powers 2, []) }
        [{ blocks := [1, 2] }, { blocks := [3] }, { blocks := [3], timestamp := 360 }, { blocks := [4], timestamp := 360 }] = some s ∧
      c ∈ s.cache.2 ∧ (∃ pin req, c.2 = .evict pin req) ∧ AsymCache_evict .powers (fun t => t.keys) c.1 = some t ∧
      c.1.metas.lookup 3 = some m ∧ c.1.metas.lookup 2 = some n ∧ 3 ∈ c.1.cache.q ∧ 2 ∈ c.1.cache.q ∧ 3 ∉ t.cache.q ∧
      cost_now (↑) (↑) Fitted.of_lifespan c.1 n < cost_now (↑) (↑) Fitted.of_lifespan c.1 m ∧ c.1.frozen = true := by
  refine ⟨Doubles.powers_exact, ?_⟩
  obtain ⟨s, hs, c, hc, hop, t, ht, hbefore, hafter, hfrozen, m, hm, n, hn, hle⟩ : ∃ s,
      runs (serve_ok (recorded (policy .powers (fun t => t.keys) seconds)) two_blocks) { cache := (AsymCache_init .powers 2, []) }
        [{ blocks := [1, 2] }, { blocks := [3] }, { blocks := [3], timestamp := 360 }, { blocks := [4], timestamp := 360 }] = some s ∧
      ∃ c ∈ s.cache.2, (match c.2 with | .evict _ _ => true | _ => false) = true ∧
        ∃ t, AsymCache_evict .powers (fun t => t.keys) c.1 = some t ∧
        c.1.cache.q.keys = [3, 2] ∧ t.cache.q.keys = [2] ∧ c.1.frozen = true ∧ ∃ m, c.1.metas.lookup 3 = some m ∧
          ∃ n, c.1.metas.lookup 2 = some n ∧
            Doubles.powers.le (Doubles.powers.expected_cost c.1.fitted c.1.now m.last_access m.cost)
              (Doubles.powers.expected_cost c.1.fitted c.1.now n.last_access n.cost) = false := by decide +kernel
  refine ⟨s, c, t, m, n, hs, hc, ?_, ht, hm, hn, AList.mem_keys.2 (by simp [hbefore]), AList.mem_keys.2 (by simp [hbefore]),
    fun h => by simpa [hafter] using AList.mem_keys.1 h, ?_, hfrozen⟩
  · split at hop
    · rename_i pin req heq
      exact ⟨pin, req, heq⟩
    · cases hop
  · refine lt_of_not_ge fun hge => ?_
    rw [(Doubles.powers_exact.le _ _ _ _ _ _).2 hge] at hle
    cases hle

end CacheSim.AsymCache
