import CacheSim.AsymCache.Coverage
import Mathlib.Algebra.Order.Floor.Semifield
import Mathlib.Analysis.SpecialFunctions.Log.Basic
import Mathlib.Data.List.GetD

/-!
# What the keys must be for the searches to find the least

A search takes the entry with the smallest key of its heap.
-/

namespace CacheSim.AsymCache

open Lib

variable {D P : Type} [LinearOrder D] {F : Doubles D P} {order : Table ObjId (BlockMeta D) → List ObjId}
  {s t : State D P} {x : ObjId} {m : BlockMeta D} {f g : Bool} {e : HeapEntry D}

def key_now (F : Doubles D P) (s : State D P) (m : BlockMeta D) : D := F.key s.fitted (young F s m) m.last_access m.cost

def Honest (F : Doubles D P) (s : State D P) : Prop :=
  ∀ f, ∀ e ∈ heap f s, valid F s f e = true → ∀ m, s.metas.lookup e.id = some m → key_now F s m ≤ e.key

/-- The heaps say of every resident in its branch at most what its key is now. -/
structure Keyed (F : Doubles D P) (s : State D P) : Prop where
  honest : Honest F s
  standing : ∀ x m, s.metas.lookup x = some m → m.resident = true → Standing F (fun e => e.key ≤ key_now F s m) s x m

omit [LinearOrder D] in
theorem Reheaped.key_now (h : Reheaped s t) (m : BlockMeta D) : key_now F t m = key_now F s m := by
  rw [h]
  rfl

omit [LinearOrder D] in
theorem Made.key_eq (h : Made F s f e) (hm : s.metas.lookup e.id = some m) : e.key = key_now F s m := by
  obtain ⟨m', n, hm', -, -, heq⟩ := h
  cases hm.symm.trans hm'
  rw [heq]
  rfl

/-! ## The searches keep the keys -/

section

variable (horder : ∀ t, (order t).Perm t.keys)
include horder

theorem refile_made (hn : Numbered t) {a : HeapEntry D}
    (ha : a ∈ heap g (refile F order f t e)) : a ∈ heap g t ∨ Made F t g a := by
  have hre := (Reheaped.refl t).set_heap f ((heap f t).erase e)
  have hpop : ∀ b ∈ heap g (set_heap f t ((heap f t).erase e)), b ∈ heap g t := by
    intro b hb
    rw [heap_set_heap] at hb
    split_ifs at hb with hg
    · exact hg ▸ List.mem_of_mem_erase hb
    · exact hb
  unfold refile at ha
  rcases hm : t.metas.lookup e.id with _ | m
  · simp only [hm] at ha
    exact .inl (hpop a ha)
  · simp only [hm] at ha
    split_ifs at ha with hr
    · obtain ⟨-, -, -, hmade, -⟩ := push_spec horder (hre.metas.symm ▸ hm) hr (hn.pop f e)
      rcases hmade g a ha with hin | hmade
      · exact .inl (hpop a hin)
      · exact .inr (hmade.of_reheaped hre)
    · exact .inl (hpop a ha)

theorem Numbered.refile (hn : Numbered t) (f : Bool) (e : HeapEntry D) : Numbered (refile F order f t e) := by
  unfold AsymCache.refile
  rcases hm : t.metas.lookup e.id with _ | m
  · exact hn.pop f e
  · dsimp only
    split_ifs with hr
    · have hre := (Reheaped.refl t).set_heap f ((heap f t).erase e)
      exact (push_spec horder (hre.metas.symm ▸ hm) hr (hn.pop f e)).2.1
    · exact hn.pop f e

theorem Honest.refile (h : Honest F t) (hn : Numbered t) (f : Bool) (e : HeapEntry D) : Honest F (refile F order f t e) := by
  have hre := (Reheaped.refl t).refile (F := F) horder f e
  intro g a ha hv m hm
  rw [hre.valid] at hv
  rw [hre.metas] at hm
  rw [hre.key_now]
  rcases refile_made horder hn ha with hin | hmade
  · exact h g a hin hv m hm
  · exact (hmade.key_eq hm).ge

theorem Keyed.peek (h : Keyed F s) (hn : Numbered s) {w : Peek D P}
    (hpeek : peek_valid F order f s = some w) : Keyed F w.s := by
  have hrounds : Reheaped s w.s ∧ Numbered w.s ∧ Honest F w.s := by
    refine peek_valid_rounds (fun t => Reheaped s t ∧ Numbered t ∧ Honest F t) ?_ ⟨.refl s, hn, h.honest⟩ hpeek
    rintro t e ⟨hre, hnum, hhonest⟩ - -
    exact ⟨hre.refile horder f e, hnum.refile horder f e, hhonest.refile horder hnum f e⟩
  obtain ⟨hre, -, hhonest⟩ := hrounds
  refine ⟨hhonest, fun x m hm hr => ?_⟩
  rw [hre.metas] at hm
  rw [hre.key_now]
  exact standing_peek horder hm hr (fun _ => le_refl _) (h.standing x m hm hr) hpeek

end

theorem Compacted.keyed (h : Compacted F s t) : Keyed F t := by
  refine ⟨fun f e he _ m hm => ?_, fun x m hm hr => ?_⟩
  · rw [h.reheaped.metas] at hm
    rw [h.reheaped.key_now]
    exact ((h.made f e he).key_eq hm).ge
  · rw [h.reheaped.metas] at hm
    obtain ⟨f, e, he, rfl⟩ := h.filed x ⟨m, hm, hr⟩
    refine ⟨e, ?_, rfl, ?_⟩
    · rw [h.reheaped.young, young_of_valid (h.valid f e he) hm]
      exact he
    · rw [h.reheaped.key_now]
      exact ((h.made f e he).key_eq hm).le

/-- A resident of branch `f` with the least key, or none when the branch is empty. -/
structure Candidate (F : Doubles D P) (f : Bool) (s : State D P) (c : Option ObjId) : Prop where
  resident : ∀ v, c = some v → ∃ m, s.metas.lookup v = some m ∧ m.resident = true ∧ young F s m = f
  least : ∀ x n, s.metas.lookup x = some n → n.resident = true → young F s n = f →
    ∃ v m, c = some v ∧ s.metas.lookup v = some m ∧ key_now F s m ≤ key_now F s n

theorem Peeking.candidate {w : Peek D P} (h : Peeking F f s w) (hend : w.out = none → heap f w.s = []) (hkeyed : Keyed F w.s) :
    Candidate F f s w.out := by
  refine ⟨fun v hv => ?_, fun x n hn hr hyoung => ?_⟩
  · obtain ⟨e, -, hvalid, rfl⟩ := h.out v hv
    obtain ⟨m, hm, hr⟩ := resident_of_valid hvalid
    exact ⟨m, hm, hr, young_of_valid hvalid hm⟩
  · obtain ⟨a, ha, -, hkey⟩ := hkeyed.standing x n (h.reheaped.metas.symm ▸ hn) hr
    rw [h.reheaped.young, hyoung] at ha
    rw [h.reheaped.key_now] at hkey
    rcases hout : w.out with _ | v
    · simp [hend hout] at ha
    · obtain ⟨e, htop, hvalid, rfl⟩ := h.out v hout
      obtain ⟨m, hm, -⟩ := resident_of_valid hvalid
      refine ⟨e.id, m, rfl, hm, ?_⟩
      have hhonest := hkeyed.honest f e (top_mem htop) (by rw [h.reheaped.valid, hvalid]) m (h.reheaped.metas.symm ▸ hm)
      rw [h.reheaped.key_now] at hhonest
      have htop_le : e.key ≤ a.key := by
        have hnot := not_before htop ha
        rw [← Bool.not_eq_true, before_iff] at hnot
        exact not_lt.1 fun hlt => hnot (.inl hlt)
      exact hhonest.trans (htop_le.trans hkey)

theorem Candidate.of_reheaped {c : Option ObjId} (h : Candidate F f t c) (hre : Reheaped s t) : Candidate F f s c := by
  refine ⟨fun v hv => ?_, fun x n hn hr hyoung => ?_⟩
  · obtain ⟨m, hm, hr, hyoung⟩ := h.resident v hv
    exact ⟨m, hre.metas ▸ hm, hr, hre.young m ▸ hyoung⟩
  · obtain ⟨v, m, hv, hm, hkey⟩ := h.least x n (hre.metas.symm ▸ hn) hr (by rw [hre.young, hyoung])
    rw [hre.key_now, hre.key_now] at hkey
    exact ⟨v, m, hv, hre.metas ▸ hm, hkey⟩

theorem Inv.choose_keyed (horder : ∀ t, (order t).Perm t.keys) (h : Inv s) (hkeyed : Keyed F (AsymCache.ready F order s))
    (hx : x ∈ s.cache.q) : ∃ t v c1 c2, choose_victim F order s = some (t, some v) ∧ Reheaped (AsymCache.ready F order s) t ∧
      Candidate F true (AsymCache.ready F order s) c1 ∧ Candidate F false (AsymCache.ready F order s) c2 ∧
      pick F (AsymCache.ready F order s) c1 c2 = some v := by
  obtain ⟨hr, hfrozen, hcache⟩ := h.ready_inv horder
  obtain ⟨w1, w2, hsearch⟩ := hr.searches horder hfrozen
  have hkeyed1 := hkeyed.peek horder hr.numbered hsearch.first
  have hkeyed2 := hkeyed1.peek horder hsearch.peeking₁.numbered hsearch.second
  have hre := hsearch.peeking₁.reheaped.trans hsearch.peeking₂.reheaped
  have hcand1 := hsearch.peeking₁.candidate hsearch.end₁ hkeyed1
  have hcand2 := (hsearch.peeking₂.candidate hsearch.end₂ hkeyed2).of_reheaped hsearch.peeking₁.reheaped
  obtain ⟨m, hm, hres⟩ := (hr.listed x).1 (hcache.symm ▸ hx)
  obtain ⟨v, hv⟩ : ∃ v, pick F (AsymCache.ready F order s) w1.out w2.out = some v := by
    apply Option.ne_none_iff_exists'.1
    intro hnone
    obtain ⟨hout1, hout2⟩ := pick_eq_none hnone
    cases hyoung : young F (AsymCache.ready F order s) m with
    | true =>
      obtain ⟨v, -, hv, -⟩ := hcand1.least x m hm hres hyoung
      cases hout1.symm.trans hv
    | false =>
      obtain ⟨v, -, hv, -⟩ := hcand2.least x m hm hres hyoung
      cases hout2.symm.trans hv
  refine ⟨w2.s, v, w1.out, w2.out, ?_, hre, hcand1, hcand2, hv⟩
  have hpick : pick F w2.s w1.out w2.out = some v := by
    rw [hre]
    exact hv
  have hfirst := hsearch.first
  unfold AsymCache.ready at hfirst
  unfold choose_victim
  rw [if_neg (by have := h.n_resident_pos hx; omega)]
  simp only [hfirst, hsearch.second, hpick, bind, Option.bind_some]
  rfl

end CacheSim.AsymCache

/-!
## The expected cost over the reals

What AsymCache computes with doubles, over the reals. Up to the turning point the first branch is the
smaller one and after it the second, if the slope ratio is not below 1; then the keys order the blocks
of a branch by their expected costs.
-/

namespace CacheSim.AsymCache

open Lib Nat Real

/-- The parameters that `AsymCache_parse_params` lets pass. -/
structure Parameters where
  reuse_prob : ℝ
  slope_ratio : ℝ
  default_lifespan : ℝ
  reuse_prob_pos : 0 < reuse_prob
  reuse_prob_lt_one : reuse_prob < 1
  slope_ratio_pos : 0 < slope_ratio

/-- What `freeze` pins. -/
structure Fitted where
  L : ℝ
  alpha : ℝ
  beta : ℝ
  tau0 : ℝ

noncomputable def Parameters.fit (q : Parameters) (gaps : List ℝ) : Fitted :=
  let lifespan := gaps.mergeSort.getD (min (gaps.length - 1) ⌊(99 / 100 : ℝ) * gaps.length⌋₊) q.default_lifespan
  let L := max 1 lifespan
  let alpha := -L / Real.log q.reuse_prob
  { L := L, alpha := alpha, beta := alpha / q.slope_ratio, tau0 := L * (1 - 1 / q.slope_ratio) }

noncomputable def tau_of (now last_access : ℝ) : ℝ := max (now - last_access) 0

noncomputable def Fitted.expected_cost (w : Fitted) (now last_access cost : ℝ) : ℝ :=
  min (Real.exp (-tau_of now last_access / w.alpha)) (Real.exp (-(tau_of now last_access - w.tau0) / w.beta)) * cost

noncomputable def Fitted.key (w : Fitted) (first : Bool) (last_access cost : ℝ) : ℝ :=
  Real.log (max cost 1) + if first then last_access / w.alpha else (last_access + w.tau0) / w.beta

noncomputable def Doubles.real (q : Parameters) : Doubles ℝ Fitted where
  zero := 0
  one := 1
  unfitted := { L := 0, alpha := 1, beta := 1, tau0 := 0 }
  fit := q.fit
  sub a b := a - b
  no_gap gap := gap ≤ 0
  tick now := now + 1
  ofInt n := n
  young w now last_access := tau_of now last_access < w.L
  key := Fitted.key
  expected_cost := Fitted.expected_cost
  le a b := a ≤ b

/-! ## The turning point -/

variable {q : Parameters} {gaps : List ℝ} {now last cost : ℝ}

theorem Parameters.alpha_pos (q : Parameters) (gaps : List ℝ) : 0 < (q.fit gaps).alpha := by
  have hlog : Real.log q.reuse_prob < 0 := log_neg q.reuse_prob_pos q.reuse_prob_lt_one
  have hL : (0 : ℝ) < (q.fit gaps).L := lt_of_lt_of_le one_pos (le_max_left _ _)
  exact div_pos_of_neg_of_neg (neg_neg_of_pos hL) hlog

theorem Parameters.second_branch (q : Parameters) (gaps : List ℝ) (tau : ℝ) :
    (tau - (q.fit gaps).tau0) / (q.fit gaps).beta =
      (tau + (q.slope_ratio - 1) * (tau - (q.fit gaps).L)) / (q.fit gaps).alpha := by
  have hslope := q.slope_ratio_pos.ne'
  have hbeta : (q.fit gaps).beta = (q.fit gaps).alpha / q.slope_ratio := rfl
  have htau0 : (q.fit gaps).tau0 = (q.fit gaps).L * (1 - 1 / q.slope_ratio) := rfl
  rw [hbeta, htau0]
  field_simp
  ring

section

variable (hslope : 1 ≤ q.slope_ratio)
include hslope

theorem branch_min (tau : ℝ) :
    min (Real.exp (-tau / (q.fit gaps).alpha)) (Real.exp (-(tau - (q.fit gaps).tau0) / (q.fit gaps).beta)) =
      if tau < (q.fit gaps).L then Real.exp (-tau / (q.fit gaps).alpha)
      else Real.exp (-(tau - (q.fit gaps).tau0) / (q.fit gaps).beta) := by
  have halpha := q.alpha_pos gaps
  have hsecond : -(tau - (q.fit gaps).tau0) / (q.fit gaps).beta =
      -((tau + (q.slope_ratio - 1) * (tau - (q.fit gaps).L)) / (q.fit gaps).alpha) := by
    rw [neg_div, q.second_branch]
  rw [hsecond, neg_div]
  split_ifs with hyoung
  · apply min_eq_left
    rw [exp_le_exp, neg_le_neg_iff]
    apply div_le_div_of_nonneg_right _ halpha.le
    nlinarith
  · apply min_eq_right
    rw [exp_le_exp, neg_le_neg_iff]
    apply div_le_div_of_nonneg_right _ halpha.le
    nlinarith

theorem expected_cost_eq (hlast : last ≤ now) (hcost : 1 ≤ cost) {f : Bool}
    (hf : f = decide (tau_of now last < (q.fit gaps).L)) :
    (q.fit gaps).expected_cost now last cost =
      Real.exp ((q.fit gaps).key f last cost - now / if f then (q.fit gaps).alpha else (q.fit gaps).beta) := by
  have htau : tau_of now last = now - last := max_eq_left (sub_nonneg.2 hlast)
  have hscale : ∀ a, Real.exp a * cost = Real.exp (Real.log (max cost 1) + a) := by
    intro a
    rw [exp_add, max_eq_left hcost, exp_log (lt_of_lt_of_le one_pos hcost), mul_comm]
  unfold Fitted.expected_cost Fitted.key
  rw [branch_min hslope, hf]
  by_cases hyoung : tau_of now last < (q.fit gaps).L
  · simp only [hyoung, if_true, decide_true]
    rw [hscale, htau]
    ring_nf
  · simp only [hyoung, if_false, decide_false, Bool.false_eq_true]
    rw [hscale, htau]
    ring_nf

theorem expected_cost_le_iff {last' cost' : ℝ} (hlast : last ≤ now) (hcost : 1 ≤ cost)
    (hlast' : last' ≤ now) (hcost' : 1 ≤ cost') {f : Bool} (hf : f = decide (tau_of now last < (q.fit gaps).L))
    (hf' : f = decide (tau_of now last' < (q.fit gaps).L)) :
    (q.fit gaps).expected_cost now last cost ≤ (q.fit gaps).expected_cost now last' cost' ↔
      (q.fit gaps).key f last cost ≤ (q.fit gaps).key f last' cost' := by
  rw [expected_cost_eq hslope hlast hcost hf, expected_cost_eq hslope hlast' hcost' hf', exp_le_exp,
    sub_le_sub_iff_right]

end

/-- `F` computes exactly what the reals `time`, `cost` and `params` stand for would give. -/
structure Doubles.Exact {D P : Type} [LinearOrder D] (F : Doubles D P) (q : Parameters) (time cost : D → ℝ) (params : P → Fitted) :
    Prop where
  time_inj : ∀ a b, time a = time b → a = b
  zero : time F.zero = 0
  one : cost F.one = 1
  no_gap : ∀ a b, F.no_gap (F.sub a b) = true ↔ time a - time b ≤ 0
  sub : ∀ a b, F.no_gap (F.sub a b) = false → time (F.sub a b) = time a - time b
  tick : ∀ a, time (F.tick a) = time a + 1
  ofInt : ∀ n, 0 ≤ n → cost (F.ofInt n) = n
  fit : ∀ gaps, params (F.fit gaps) = q.fit (gaps.map time)
  young : ∀ p now last, F.young p now last = true ↔ tau_of (time now) (time last) < (params p).L
  key : ∀ p f last c last' c', F.key p f last c ≤ F.key p f last' c' ↔
    (params p).key f (time last) (cost c) ≤ (params p).key f (time last') (cost c')
  le : ∀ p now last c last' c', F.le (F.expected_cost p now last c) (F.expected_cost p now last' c') = true ↔
    (params p).expected_cost (time now) (time last) (cost c) ≤ (params p).expected_cost (time now) (time last') (cost c')

theorem Doubles.real_exact (q : Parameters) : (Doubles.real q).Exact q id id id where
  time_inj _ _ h := h
  zero := rfl
  one := rfl
  no_gap _ _ := by simp [Doubles.real]
  sub _ _ _ := rfl
  tick _ := rfl
  ofInt _ _ := rfl
  fit gaps := by simp [Doubles.real]
  young _ _ _ := by simp [Doubles.real]
  key _ _ _ _ _ _ := .rfl
  le _ _ _ _ _ _ := by simp [Doubles.real]

/-! ## A carrier that can be run -/

noncomputable def Parameters.default : Parameters where
  reuse_prob := 1 / 2
  slope_ratio := 40
  default_lifespan := 180
  reuse_prob_pos := by norm_num
  reuse_prob_lt_one := by norm_num
  slope_ratio_pos := by norm_num

/-- The default parameters, for whole seconds. `p` stands for a lifespan of `p + 1`. Keys and expected
costs are held as the powers of two that order them. -/
def Doubles.powers : Doubles Nat Nat where
  zero := 0
  one := 1
  unfitted := 0
  fit gaps := max 1 (gaps.mergeSort.getD (min (gaps.length - 1) (99 * gaps.length / 100)) 180) - 1
  sub a b := a - b
  no_gap gap := gap ≤ 0
  tick now := now + 1
  ofInt n := n.toNat
  young p now last := now - last < p + 1
  key p first last c := max c 1 ^ (p + 1) * 2 ^ if first then last else 40 * last + 39 * (p + 1)
  expected_cost p now last c :=
    2 ^ min (40 * now - (now - last)) (40 * now + 39 * (p + 1) - 40 * (now - last)) * c ^ (p + 1)
  le a b := a ≤ b

noncomputable def Fitted.of_lifespan (p : Nat) : Fitted where
  L := p + 1
  alpha := (p + 1) / Real.log 2
  beta := (p + 1) / Real.log 2 / 40
  tau0 := (p + 1) * (1 - 1 / 40)

theorem fit_powers (gaps : List Nat) :
    Fitted.of_lifespan (Doubles.powers.fit gaps) = Parameters.default.fit (gaps.map (↑)) := by
  have hsort : (gaps.map (Nat.cast : Nat → ℝ)).mergeSort = gaps.mergeSort.map (↑) := by
    rw [List.map_mergeSort]
    simp
  have hfloor : ⌊(99 / 100 : ℝ) * gaps.length⌋₊ = 99 * gaps.length / 100 := by
    have hdiv : ⌊((99 * gaps.length : Nat) : ℝ) / (100 : Nat)⌋₊ = 99 * gaps.length / 100 := floor_div_eq_div _ _
    rw [← hdiv]
    push_cast
    ring_nf
  set l := gaps.mergeSort.getD (min (gaps.length - 1) (99 * gaps.length / 100)) 180 with hl
  have hlifespan : (gaps.map (Nat.cast : Nat → ℝ)).mergeSort.getD
      (min ((gaps.map (Nat.cast : Nat → ℝ)).length - 1) ⌊(99 / 100 : ℝ) * (gaps.map (Nat.cast : Nat → ℝ)).length⌋₊) 180 = l := by
    rw [hsort, List.length_map, hfloor, show (180 : ℝ) = ((180 : Nat) : ℝ) by norm_num, List.getD_map]
  have hp : ((Doubles.powers.fit gaps : Nat) : ℝ) + 1 = max 1 (l : ℝ) := by
    have hfit : Doubles.powers.fit gaps + 1 = max 1 l := by
      show max 1 l - 1 + 1 = max 1 l
      omega
    rw [← cast_one, ← cast_add, hfit, cast_max]
  unfold Fitted.of_lifespan Parameters.fit
  simp only [Parameters.default]
  have hhalf : Real.log (1 / 2) = -Real.log 2 := by rw [one_div, log_inv]
  rw [hlifespan, hp, hhalf, neg_div_neg_eq]

theorem add_div_div {L : ℝ} (hL : L ≠ 0) (A C x : ℝ) : C + x / (L / A) = (L * C + x * A) / L := by
  field_simp

theorem key_powers (p : Nat) (f : Bool) (last c : Nat) :
    (Fitted.of_lifespan p).key f last c = Real.log (Doubles.powers.key p f last c : Nat) / (p + 1) := by
  have hp : (p : ℝ) + 1 ≠ 0 := by positivity
  have hc : (0 : ℝ) < max (c : ℝ) 1 := lt_max_of_lt_right one_pos
  have hkey : ((Doubles.powers.key p f last c : Nat) : ℝ) =
      max (c : ℝ) 1 ^ (p + 1) * 2 ^ (if f then last else 40 * last + 39 * (p + 1)) := by
    unfold Doubles.powers
    rw [cast_mul, cast_pow, cast_pow, cast_max, cast_one, cast_ofNat]
  rw [hkey, log_mul (pow_pos hc _).ne' (by positivity), Real.log_pow, Real.log_pow, cast_add, cast_one]
  unfold Fitted.key Fitted.of_lifespan
  cases f with
  | true => exact add_div_div hp _ _ _
  | false =>
    have hsecond : ((last : ℝ) + (p + 1) * (1 - 1 / 40)) / ((p + 1) / Real.log 2 / 40) =
        ((40 * last + 39 * (p + 1) : Nat) : ℝ) / ((p + 1) / Real.log 2) := by
      rw [div_div_eq_mul_div]
      push_cast
      ring
    rw [hsecond]
    exact add_div_div hp _ _ _

theorem tau_of_nat (now last : Nat) : tau_of now last = (now - last : Nat) := by
  rcases le_total last now with hle | hle
  · rw [cast_sub hle]
    exact max_eq_left (sub_nonneg.2 (cast_le.2 hle))
  · rw [Nat.sub_eq_zero_of_le hle, cast_zero]
    exact max_eq_right (sub_nonpos.2 (cast_le.2 hle))

theorem two_pow_eq_exp (n : Nat) : (2 : ℝ) ^ n = Real.exp (n * Real.log 2) := by
  rw [exp_nat_mul, exp_log two_pos]

theorem expected_cost_powers (p now last c : Nat) :
    (Fitted.of_lifespan p).expected_cost now last c ^ (p + 1) * 2 ^ (40 * now) =
      (Doubles.powers.expected_cost p now last c : Nat) := by
  have hL : (0 : ℝ) < p + 1 := by positivity
  have hA : 0 < Real.log 2 := log_pos one_lt_two
  obtain ⟨t, ht⟩ : ∃ t, now - last = t := ⟨_, rfl⟩
  have hmin : ((min (40 * now - t) (40 * now + 39 * (p + 1) - 40 * t) : Nat) : ℝ) =
      40 * now + min (-(t : ℝ)) (39 * (p + 1) - 40 * t) := by
    rw [← min_add_add_left, cast_min, cast_sub (by omega), cast_sub (by omega)]
    push_cast
    ring_nf
  have hfirst : -(t : ℝ) / ((p + 1) / Real.log 2) = -(t : ℝ) * (Real.log 2 / (p + 1)) := by
    rw [div_div_eq_mul_div, mul_div_assoc]
  have hsecond : -((t : ℝ) - (p + 1) * (1 - 1 / 40)) / ((p + 1) / Real.log 2 / 40) =
      (39 * (p + 1) - 40 * t) * (Real.log 2 / (p + 1)) := by
    rw [div_div_eq_mul_div, div_div_eq_mul_div, mul_div_assoc]
    ring
  have hE : (Fitted.of_lifespan p).expected_cost now last c =
      Real.exp (min (-(t : ℝ)) (39 * (p + 1) - 40 * t) * (Real.log 2 / (p + 1))) * c := by
    unfold Fitted.expected_cost Fitted.of_lifespan
    rw [tau_of_nat, ht, hfirst, hsecond, ← exp_monotone.map_min, min_mul_of_nonneg _ _ (div_pos hA hL).le]
  unfold Doubles.powers
  dsimp only
  rw [ht, hE, mul_pow, ← exp_nat_mul, cast_mul, cast_pow, cast_pow, cast_ofNat, two_pow_eq_exp, two_pow_eq_exp, hmin,
    mul_right_comm, ← exp_add]
  push_cast
  field_simp
  ring_nf

theorem Doubles.powers_exact : Doubles.powers.Exact .default (↑) (↑) Fitted.of_lifespan where
  time_inj _ _ h := cast_injective h
  zero := cast_zero
  one := cast_one
  no_gap a b := by simp [Doubles.powers, Nat.sub_eq_zero_iff_le]
  sub a b h := by
    have hlt : b < a := by simpa [Doubles.powers, Nat.sub_eq_zero_iff_le] using h
    exact cast_sub hlt.le
  tick a := cast_succ a
  ofInt n hn := by
    obtain ⟨k, rfl⟩ := Int.eq_ofNat_of_zero_le hn
    simp [Doubles.powers]
  fit := fit_powers
  young p now last := by
    rw [tau_of_nat]
    unfold Doubles.powers Fitted.of_lifespan
    rw [decide_eq_true_iff, ← cast_succ, cast_lt]
  key p f last c last' c' := by
    have hpos : ∀ last c, 0 < Doubles.powers.key p f last c := by
      intro last c
      exact mul_pos (Nat.pow_pos (by omega)) (Nat.pow_pos (by omega))
    rw [key_powers, key_powers, div_le_div_iff_of_pos_right (by positivity),
      log_le_log_iff (cast_pos.2 (hpos _ _)) (cast_pos.2 (hpos _ _)), cast_le]
  le p now last c last' c' := by
    have hnonneg : ∀ last c : Nat, 0 ≤ (Fitted.of_lifespan p).expected_cost now last c := by
      intro last c
      exact mul_nonneg (le_min (exp_nonneg _) (exp_nonneg _)) (cast_nonneg _)
    rw [← pow_le_pow_iff_left₀ (hnonneg last c) (hnonneg last' c') (succ_ne_zero p),
      ← mul_le_mul_iff_left₀ (pow_pos (two_pos : (0 : ℝ) < 2) (40 * now)), expected_cost_powers, expected_cost_powers, cast_le]
    exact decide_eq_true_iff

end CacheSim.AsymCache
