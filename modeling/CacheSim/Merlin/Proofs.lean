import CacheSim.Merlin.Records

/-!
# Every move keeps the histogram
-/

namespace CacheSim.Merlin

open Lib List Option

variable {κ : Type} {K : Sketch κ} {s s' : State κ} {t : Tier} {x y : ObjId}

/-! ## Places -/

variable {m : Md} {a b g : Option Md} {o : FifoObj Md} {req : Request}

theorem Placed.of_filter (h : Placed (some m) a b g) : a = none ∧ b = none ∧ g = none ∧ m.freq ≤ kMaxFrequency := by
  cases h with
  | filter hm => exact ⟨rfl, rfl, rfl, hm⟩

theorem Placed.of_core (h : Placed a b (some m) g) : a = none ∧ b = none ∧ g = none ∧ m.freq ≤ kMaxFrequency := by
  cases h with
  | core hm => exact ⟨rfl, rfl, rfl, hm⟩

theorem Placed.of_staging (h : Placed a (some m) b g) :
    a = none ∧ b = none ∧ m.freq ≤ kMaxFrequency ∧ (m.inghost = false → g = none) := by
  cases h with
  | staging hm => exact ⟨rfl, rfl, hm, fun _ => rfl⟩
  | both hin hm _ =>
    refine ⟨rfl, rfl, hm, fun hout => ?_⟩
    rw [hin] at hout
    cases hout

theorem Placed.forget {c d : Option Md} (h : Placed a b c d) :
    Placed none b c d ∧ Placed a none c d ∧ Placed a b none d ∧ Placed a b c none := by
  cases h with
  | nowhere => exact ⟨.nowhere, .nowhere, .nowhere, .nowhere⟩
  | filter hm => exact ⟨.nowhere, .filter hm, .filter hm, .filter hm⟩
  | staging hm => exact ⟨.staging hm, .nowhere, .staging hm, .staging hm⟩
  | core hm => exact ⟨.core hm, .core hm, .nowhere, .core hm⟩
  | ghost hg => exact ⟨.ghost hg, .ghost hg, .ghost hg, .nowhere⟩
  | both hin hm hg => exact ⟨.both hin hm hg, .ghost hg, .both hin hm hg, .staging hm⟩

structure Absent (s : State κ) (x : ObjId) : Prop where
  filter : s.md .filter x = none
  staging : s.md .staging x = none
  core : s.md .core x = none

/-- An eviction brings no id back: not into the cache, and into the ghost only what was in the cache.
It keeps what `merlin_find` noted. -/
structure Evicts (s s' : State κ) : Prop where
  absent : ∀ x, Absent s x → Absent s' x ∧ ∀ g, s'.md .ghost x = some g → s.md .ghost x = some g
  ghost_hit : s'.ghost_hit = s.ghost_hit
  ghost_freq : s'.ghost_freq = s.ghost_freq
  promote : s'.promote_ghost_to_core = s.promote_ghost_to_core

theorem Evicts.refl (s : State κ) : Evicts s s := ⟨fun _ h => ⟨h, fun _ hg => hg⟩, rfl, rfl, rfl⟩

theorem Evicts.trans {a b c : State κ} (h : Evicts a b) (h' : Evicts b c) : Evicts a c := by
  refine ⟨fun x hx => ?_, h'.ghost_hit.trans h.ghost_hit, h'.ghost_freq.trans h.ghost_freq,
    h'.promote.trans h.promote⟩
  obtain ⟨hb, hg⟩ := h.absent x hx
  obtain ⟨hc, hg'⟩ := h'.absent x hb
  exact ⟨hc, fun g hgc => hg g (hg' g hgc)⟩

theorem Evicts.of_resident (hx : ¬ Absent s x) (hother : ∀ t y, y ≠ x → s'.md t y = s.md t y)
    (hhit : s'.ghost_hit = s.ghost_hit) (hfreq : s'.ghost_freq = s.ghost_freq)
    (hpromote : s'.promote_ghost_to_core = s.promote_ghost_to_core) : Evicts s s' := by
  refine ⟨fun y hy => ?_, hhit, hfreq, hpromote⟩
  have hne : y ≠ x := by
    rintro rfl
    exact hx hy
  rw [hother .ghost y hne]
  refine ⟨⟨?_, ?_, ?_⟩, fun g hg => hg⟩
  · rw [hother _ y hne, hy.filter]
  · rw [hother _ y hne, hy.staging]
  · rw [hother _ y hne, hy.core]

/-! ## Moves -/

section

variable (h : Inv s)
include h

theorem Inv.of_move (hother : ∀ t y, y ≠ x → s'.md t y = s.md t y)
    (hx : Placed (s'.md .filter x) (s'.md .staging x) (s'.md .core x) (s'.md .ghost x))
    (hcount : ∀ f, s'.frequency_population f - s.frequency_population f = count s' f - count s f) : Inv s' := by
  refine ⟨fun y => ?_, fun f => ?_⟩
  · rcases eq_or_ne y x with rfl | hne
    · exact hx
    · simp only [hother _ y hne]
      exact h.placed y
  · have := h.population f
    have := hcount f
    omega

theorem forget_inv (hx : s.md t x = some m) :
    Inv ((s.decrease m.freq (-1)).remove t x) ∧ Evicts s ((s.decrease m.freq (-1)).remove t x) := by
  constructor
  · apply h.of_move (x := x)
    · intro u y hy
      simp [hy]
    · obtain ⟨h1, h2, h3, h4⟩ := (h.placed x).forget
      cases t <;> simpa
    · intro f
      rw [count_remove (by simpa using hx), population_remove, population_decrease_all, count_decrease]
      omega
  · refine ⟨fun y hy => ⟨⟨?_, ?_, ?_⟩, fun g hg => ?_⟩, rfl, rfl, rfl⟩
    · simp [hy.filter]
    · simp [hy.staging]
    · simp [hy.core]
    · simp only [md_remove] at hg
      split_ifs at hg
      exact hg

theorem evict_staging_inv (hs : evict_staging s = some s') : Inv s' ∧ Evicts s s' := by
  obtain ⟨e, he, heq⟩ := bind_eq_some_iff.1 hs
  cases heq
  exact forget_inv h (md_some (Fifo.lookup_to_evict he))

theorem adjust_core_step_inv (hs : adjust_core_step s = some s') : Inv s' ∧ Evicts s s' := by
  obtain ⟨e, he, heq⟩ := bind_eq_some_iff.1 hs
  obtain ⟨-, -, heq⟩ := bind_eq_some_iff.1 heq
  cases heq
  have hcore := md_some (Fifo.lookup_to_evict he)
  obtain ⟨hf, hst, hg, hm⟩ := (hcore ▸ h.placed e.1).of_core
  have hother : ∀ t y, y ≠ e.1 →
      ((s.insert .staging (obj_to_request e) { freq := e.2.md.freq }).remove .core e.1).md t y = s.md t y := by
    intro t y hy
    simp [obj_to_request, hy]
  constructor
  · apply h.of_move hother
    · simp only [md_remove, md_insert, obj_to_request, hf, hg]
      exact .staging hm
    · intro f
      rw [count_remove (m := e.2.md) (by simp [hcore]), count_insert hst, population_remove, population_insert]
      dsimp only
      omega
  · exact .of_resident (fun ha => by simp [ha.core] at hcore) hother rfl rfl rfl

theorem remove_from_ghost_inv (x : ObjId) :
    Inv (remove_from_ghost s x) ∧ Evicts s (remove_from_ghost s x) ∧
      ∀ t y, (remove_from_ghost s x).md t y = if t = .ghost ∧ y = x then none else s.md t y := by
  unfold remove_from_ghost
  rcases hx : (s.queue .ghost).q.lookup x with _ | o
  · refine ⟨h, .refl s, fun t y => ?_⟩
    split_ifs with hty
    · rw [hty.1, hty.2, State.md, hx]
      rfl
    · rfl
  · obtain ⟨hinv, hev⟩ := forget_inv h (md_some hx)
    exact ⟨hinv, hev, fun t y => by simp⟩

end

theorem promote_filter_candidate_false (h : (promote_filter_candidate K s).2 = false) :
    (promote_filter_candidate K s).1 = s := by
  unfold promote_filter_candidate at h ⊢
  split at h
  · split_ifs at h ⊢ <;> rfl
  · rfl

theorem promote_filter_candidate_inv (h : Inv s) :
    Inv (promote_filter_candidate K s).1 ∧ Evicts s (promote_filter_candidate K s).1 := by
  unfold promote_filter_candidate
  split
  · rename_i e o he ho
    split_ifs with hhot hfalse hwins
    · exact ⟨h, .refl s⟩
    · exact ⟨h, .refl s⟩
    · have hfilter := md_some (Fifo.lookup_to_evict he)
      obtain ⟨hst, hc, hg, hm⟩ := (hfilter ▸ h.placed e.1).of_filter
      set s1 := (((s.sketch_add K e.1).insert .staging (obj_to_request e) { inghost := true }).bump 0).insert .ghost
        (obj_to_request e) { freq := e.2.md.freq } with hs1
      have hother : ∀ t y, y ≠ e.1 → (s1.remove .filter e.1).md t y = s.md t y := by
        intro t y hy
        simp [hs1, obj_to_request, hy]
      constructor
      · apply h.of_move hother
        · simp only [hs1, md_remove, md_insert, md_bump, md_sketch_add, obj_to_request, hc]
          exact .both rfl (Nat.zero_le _) hm
        · intro f
          rw [count_remove (m := e.2.md) (by simp [hs1, hfilter]), hs1, count_insert (by simpa [obj_to_request] using hg),
            count_bump, count_insert (by simpa [obj_to_request] using hst), population_remove, population_insert,
            population_bump_zero, population_insert, population_sketch_add, count_sketch_add]
          dsimp only
          omega
      · exact .of_resident (fun ha => by simp [ha.filter] at hfilter) hother rfl rfl rfl
    · exact ⟨h, .refl s⟩
  · exact ⟨h, .refl s⟩

theorem adjust_staging_step_inv {w w' : State κ × Bool} (h : Inv w.1) (hs : adjust_staging_step K w = some w') :
    Inv w'.1 ∧ Evicts w.1 w'.1 := by
  obtain ⟨e, he, heq⟩ := bind_eq_some_iff.1 hs
  have hst := md_some (Fifo.lookup_to_evict he)
  obtain ⟨hf, hc, hm, hout⟩ := (hst ▸ h.placed e.1).of_staging
  by_cases hcold : e.2.md.freq = 0
  · rw [if_pos hcold] at heq
    cases heq
    exact ⟨h, .refl _⟩
  · rw [if_neg hcold] at heq
    cases heq
    set s1 := if e.2.md.inghost then remove_from_ghost w.1 e.1 else w.1 with hs1
    obtain ⟨hinv1, hev1, hmd1⟩ : Inv s1 ∧ Evicts w.1 s1 ∧
        ∀ t y, s1.md t y = if t = .ghost ∧ y = e.1 then none else w.1.md t y := by
      rw [hs1]
      split_ifs with hin
      · exact remove_from_ghost_inv h e.1
      · refine ⟨h, .refl _, fun t y => ?_⟩
        split_ifs with hty
        · rw [hty.1, hty.2]
          exact hout (by simpa using hin)
        · rfl
    set s2 := ((s1.sketch_add K e.1).insert .core (obj_to_request e) { freq := e.2.md.freq - 1 }).decrease
      e.2.md.freq (e.2.md.freq - 1) with hs2
    have hother : ∀ t y, y ≠ e.1 → (s2.remove .staging e.1).md t y = s1.md t y := by
      intro t y hy
      simp [hs2, obj_to_request, hy]
    have hst1 : s1.md .staging e.1 = some e.2.md := by simp [hmd1, hst]
    have hc1 : s1.md .core e.1 = none := by simp [hmd1, hc]
    refine ⟨hinv1.of_move hother ?_ fun f => ?_, hev1.trans (.of_resident ?_ hother rfl rfl rfl)⟩
    · simp only [hs2, md_remove, md_decrease, md_insert, md_sketch_add, obj_to_request, hmd1, hf]
      exact .core (le_trans (Nat.sub_le _ _) hm)
    · rw [count_remove (m := e.2.md) (by simp [hs2, hst1]), hs2, count_decrease,
        count_insert (by simpa [obj_to_request] using hc1), count_sketch_add, population_remove, population_decrease,
        population_insert, population_sketch_add]
      unfold reaches
      dsimp only
      split_ifs <;> omega
    · exact fun ha => by simp [ha.staging] at hst1

theorem adjust_filter_step_inv {w w' : State κ × Bool} (h : Inv w.1) (hs : adjust_filter_step K w = some w') :
    Inv w'.1 ∧ Evicts w.1 w'.1 := by
  obtain ⟨e, he, heq⟩ := bind_eq_some_iff.1 hs
  have hfilter := md_some (Fifo.lookup_to_evict he)
  obtain ⟨hst, hc, hg, hm⟩ := (hfilter ▸ h.placed e.1).of_filter
  have hres : ¬ Absent w.1 e.1 := fun ha => by simp [ha.filter] at hfilter
  by_cases hhot : e.2.md.freq ≥ w.1.guard_freq
  · rw [if_pos hhot] at heq
    cases heq
    set s1 := ((w.1.insert .core (obj_to_request e) {}).decrease e.2.md.freq 0).sketch_add K e.1 with hs1
    have hother : ∀ t y, y ≠ e.1 → (s1.remove .filter e.1).md t y = w.1.md t y := by
      intro t y hy
      simp [hs1, obj_to_request, hy]
    refine ⟨h.of_move hother ?_ fun f => ?_, .of_resident hres hother rfl rfl rfl⟩
    · simp only [hs1, md_remove, md_sketch_add, md_decrease, md_insert, obj_to_request, hst, hg]
      exact .core (Nat.zero_le _)
    · rw [count_remove (m := e.2.md) (by simp [hs1, hfilter]), hs1, count_sketch_add, count_decrease, count_insert hc,
        population_remove, population_sketch_add, population_decrease, population_insert]
      unfold reaches
      dsimp only
      split_ifs <;> omega
  · rw [if_neg hhot] at heq
    obtain ⟨hinv, hev⟩ := promote_filter_candidate_inv (K := K) h
    by_cases hpromoted : (promote_filter_candidate K w.1).2 = true
    · simp only [hpromoted] at heq
      obtain ⟨u, hu, heq⟩ := bind_eq_some_iff.1 heq
      cases heq
      obtain ⟨hinv', hev'⟩ := evict_staging_inv hinv hu
      exact ⟨hinv', hev.trans hev'⟩
    · simp only [hpromoted] at heq
      cases heq
      have hsame : (promote_filter_candidate K w.1).1 = w.1 := promote_filter_candidate_false (by simpa using hpromoted)
      rw [hsame]
      set s1 := (add_to_ghost w.1 (obj_to_request e) e.2.md.freq).sketch_add K e.1 with hs1
      have hother : ∀ t y, y ≠ e.1 → (s1.remove .filter e.1).md t y = w.1.md t y := by
        intro t y hy
        simp [hs1, add_to_ghost, obj_to_request, hy]
      refine ⟨h.of_move hother ?_ fun f => ?_, .of_resident hres hother rfl rfl rfl⟩
      · simp only [hs1, add_to_ghost, md_remove, md_sketch_add, md_insert, obj_to_request, hst, hc]
        exact .ghost hm
      · rw [count_remove (m := e.2.md) (by simp [hs1, add_to_ghost, hfilter]), hs1, count_sketch_add, add_to_ghost,
          count_insert hg, population_remove, population_sketch_add, population_insert]
        dsimp only
        omega

theorem adjust_ghost_step_inv (h : Inv s) (hs : adjust_ghost_step s = some s') : Inv s' ∧ Evicts s s' := by
  obtain ⟨e, he, heq⟩ := bind_eq_some_iff.1 hs
  cases heq
  exact forget_inv h (md_some (Fifo.lookup_to_evict he))

/-! ## Loops -/

theorem loop_inv {σ : Type} (view : σ → State κ) {cond : σ → Bool} {body : σ → Option σ}
    (hbody : ∀ w w', Inv (view w) → body w = some w' → Inv (view w') ∧ Evicts (view w) (view w')) {n : Nat} {w w' : σ}
    (h : Inv (view w)) (hrun : whileLoop cond body n w = some w') : Inv (view w') ∧ Evicts (view w) (view w') := by
  refine (whileLoop_inv (fun u => Inv (view u) ∧ Evicts (view w) (view u)) ?_ n w w' ⟨h, .refl _⟩ hrun).1
  rintro u v ⟨hu, hev⟩ - hv
  obtain ⟨hinv, hev'⟩ := hbody u v hu hv
  exact ⟨hinv, hev.trans hev'⟩

section

variable (h : Inv s)
include h

theorem adjust_core_inv (hs : adjust_core s = some s') : Inv s' ∧ Evicts s s' :=
  loop_inv (fun s => s) (fun _ _ hu hv => adjust_core_step_inv hu hv) h hs

theorem adjust_ghost_inv (hs : adjust_ghost s = some s') : Inv s' ∧ Evicts s s' :=
  loop_inv (fun s => s) (fun _ _ hu hv => adjust_ghost_step_inv hu hv) h hs

theorem adjust_staging_inv {ret : Bool} (hs : adjust_staging K s = some (s', ret)) : Inv s' ∧ Evicts s s' :=
  loop_inv Prod.fst (fun _ _ hu hv => adjust_staging_step_inv hu hv) h hs

theorem adjust_filter_inv {ret : Bool} (hs : adjust_filter K s = some (s', ret)) : Inv s' ∧ Evicts s s' :=
  loop_inv Prod.fst (fun _ _ hu hv => adjust_filter_step_inv hu hv) h hs

theorem evict_core_inv (hs : evict_core K s = some s') : Inv s' ∧ Evicts s s' := by
  unfold evict_core at hs
  rcases he : (s.queue .core).FIFO_to_evict with _ | e
  · rw [he] at hs
    obtain ⟨⟨u, ret⟩, hu, rfl⟩ := map_eq_some_iff.1 hs
    exact adjust_filter_inv h hu
  · rw [he] at hs
    cases hs
    exact forget_inv h (md_some (Fifo.lookup_to_evict he))

end

theorem exchange_step_inv {w w' : Exchange κ} (h : Inv w.s) (hs : exchange_step K w = some w') :
    Inv w'.s ∧ Evicts w.s w'.s := by
  obtain ⟨u, hu, hs⟩ := bind_eq_some_iff.1 hs
  obtain ⟨⟨v, ret⟩, hv, hs⟩ := bind_eq_some_iff.1 hs
  obtain ⟨hinv1, hev1⟩ := adjust_core_inv h hu
  obtain ⟨hinv2, hev2⟩ := adjust_staging_inv hinv1 hv
  dsimp only at hs
  split_ifs at hs with hdone
  · obtain ⟨x, hx, hs⟩ := bind_eq_some_iff.1 hs
    obtain ⟨y, hy, hs⟩ := bind_eq_some_iff.1 hs
    cases hs
    obtain ⟨hinv3, hev3⟩ := evict_core_inv hinv2 hx
    obtain ⟨hinv4, hev4⟩ := adjust_ghost_inv hinv3 hy
    exact ⟨hinv4, ((hev1.trans hev2).trans hev3).trans hev4⟩
  · cases hs
    exact ⟨hinv2, hev1.trans hev2⟩

theorem Inv.frame (h : Inv s) (hqueue : s'.queue = s.queue)
    (hpop : s'.frequency_population = s.frequency_population) : Inv s' := by
  have hmd : ∀ t x, s'.md t x = s.md t x := fun t x => by rw [State.md, hqueue]; rfl
  refine ⟨fun x => ?_, fun f => ?_⟩
  · simp only [hmd]
    exact h.placed x
  · rw [hpop, h.population]
    unfold count
    rw [hqueue]

theorem Evicts.frame (hqueue : s'.queue = s.queue) (hhit : s'.ghost_hit = s.ghost_hit)
    (hfreq : s'.ghost_freq = s.ghost_freq) (hpromote : s'.promote_ghost_to_core = s.promote_ghost_to_core) :
    Evicts s s' := by
  have hmd : ∀ t x, s'.md t x = s.md t x := fun t x => by rw [State.md, hqueue]; rfl
  exact ⟨fun x hx => ⟨⟨(hmd _ x).trans hx.filter, (hmd _ x).trans hx.staging, (hmd _ x).trans hx.core⟩,
    fun g hg => (hmd _ x).symm.trans hg⟩, hhit, hfreq, hpromote⟩

theorem merlin_evict_inv {req : Option Request} (h : Inv s) (hs : merlin_evict K s req = some s') :
    Inv s' ∧ Evicts s s' := by
  obtain ⟨u, hu, hs⟩ := bind_eq_some_iff.1 hs
  obtain ⟨g, -, hguard⟩ := bind_eq_some_iff.1 hu
  cases hguard
  have hcount : (count_eviction K s).queue = s.queue ∧
      (count_eviction K s).frequency_population = s.frequency_population ∧
      (count_eviction K s).ghost_hit = s.ghost_hit ∧ (count_eviction K s).ghost_freq = s.ghost_freq ∧
      (count_eviction K s).promote_ghost_to_core = s.promote_ghost_to_core := by
    unfold count_eviction
    dsimp only
    split_ifs <;> exact ⟨rfl, rfl, rfl, rfl, rfl⟩
  obtain ⟨hqueue, hpop, hhit, hfreq, hpromote⟩ := hcount
  set u : State κ := { count_eviction K s with guard_freq := g }
  have hinv : Inv u := h.frame hqueue hpop
  have hev : Evicts s u := .frame hqueue hhit hfreq hpromote
  suffices hrest : Inv s' ∧ Evicts u s' from ⟨hrest.1, hev.trans hrest.2⟩
  split_ifs at hs with hempty hfilter
  · rw [← some.inj hs]
    exact ⟨hinv, .refl u⟩
  · obtain ⟨⟨v, ret⟩, hv, hghost⟩ := bind_eq_some_iff.1 hs
    obtain ⟨hinv1, hev1⟩ := adjust_filter_inv hinv hv
    obtain ⟨hinv2, hev2⟩ := adjust_ghost_inv hinv1 hghost
    exact ⟨hinv2, hev1.trans hev2⟩
  · obtain ⟨w, hw, hs⟩ := bind_eq_some_iff.1 hs
    obtain ⟨hinv1, hev1⟩ := loop_inv Exchange.s (fun _ _ hu hv => exchange_step_inv hu hv) hinv hw
    split_ifs at hs with hdone
    · cases hs
      exact ⟨hinv1, hev1⟩
    · obtain ⟨v, hv, hghost⟩ := bind_eq_some_iff.1 hs
      obtain ⟨hinv2, hev2⟩ := promote_filter_candidate_inv hinv1
      obtain ⟨hinv3, hev3⟩ := evict_staging_inv hinv2 hv
      obtain ⟨hinv4, hev4⟩ := adjust_ghost_inv hinv3 hghost
      exact ⟨hinv4, ((hev1.trans hev2).trans hev3).trans hev4⟩

/-! ## The calls -/

theorem md_touch (hx : (s.queue t).q.lookup x = some o) (u : Tier) (y : ObjId) :
    (s.touch t x o).md u y = if u = t ∧ y = x then
      some { o.md with freq := if o.md.freq < kMaxFrequency then o.md.freq + 1 else o.md.freq } else s.md u y := by
  unfold State.touch
  split_ifs with hlow hux hux
  · obtain ⟨rfl, rfl⟩ := hux
    rw [md_bump, md_set, if_pos rfl]
    exact congrArg _ (Table.lookup_replace hx _)
  · rw [md_bump, md_set]
    split_ifs with hu
    · subst hu
      have hy : y ≠ x := fun hy => hux ⟨rfl, hy⟩
      exact congrArg _ (Table.lookup_replace_ne hx _ hy)
    · rfl
  · rw [hux.1, hux.2, md_some hx]
  · rfl

theorem touch_inv (h : Inv s) (hx : (s.queue t).q.lookup x = some o) : Inv (s.touch t x o) := by
  have hmd := md_touch hx
  apply h.of_move
  · intro u y hy
    rw [hmd, if_neg fun h => hy h.2]
  · have hold := h.placed x
    have hraise : ∀ {n : Nat}, n ≤ kMaxFrequency → (if n < kMaxFrequency then n + 1 else n) ≤ kMaxFrequency := by
      intro n hn
      split_ifs <;> omega
    have hox := md_some hx
    simp only [hmd]
    cases t with
    | filter =>
      simp only [hox] at hold
      obtain ⟨hst, hc, hg, hm⟩ := hold.of_filter
      simp only [hst, hc, hg]
      exact .filter (hraise hm)
    | core =>
      simp only [hox] at hold
      obtain ⟨hf, hst, hg, hm⟩ := hold.of_core
      simp only [hf, hst, hg]
      exact .core (hraise hm)
    | staging =>
      simp only [hox] at hold ⊢
      revert hold
      generalize s.md .filter x = a, s.md .core x = b, s.md .ghost x = g
      rintro (_ | _ | hm | _ | _ | ⟨hin, hm, hg⟩)
      · exact .staging (hraise hm)
      · exact .both hin (hraise hm) hg
    | ghost =>
      simp only [hox] at hold ⊢
      revert hold
      generalize s.md .filter x = a, s.md .core x = b, s.md .staging x = g
      rintro (_ | _ | _ | _ | hm | ⟨hin, hm, hg⟩)
      · exact .ghost (hraise hm)
      · exact .both hin hm (hraise hg)
  · intro f
    unfold State.touch
    split_ifs with hlow
    · rw [population_bump, count_bump, count_set, countIn_set_md hx]
      unfold reaches
      show s.frequency_population f + _ - _ = _
      dsimp only
      split_ifs <;> omega
    · omega

/-- Between the lookup that missed and the insertion: what `merlin_find` noted still holds of the
ghost, unless that record was trimmed. -/
structure Pending (s : State κ) (id : ObjId) : Prop where
  inv : Inv s
  absent : Absent s id
  cold : s.ghost_hit = false → s.md .ghost id = none
  warm : s.ghost_hit = true →
    s.ghost_freq ≤ kMaxFrequency ∧ ∀ g, s.md .ghost id = some g → g.freq = s.ghost_freq

theorem Pending.evict {id : ObjId} (h : Pending s id) (hinv : Inv s') (hev : Evicts s s') : Pending s' id := by
  obtain ⟨habsent, hghost⟩ := hev.absent id h.absent
  refine ⟨hinv, habsent, fun hcold => ?_, fun hwarm => ?_⟩
  · have hnone := h.cold (hev.ghost_hit ▸ hcold)
    rcases hg : s'.md .ghost id with _ | g
    · rfl
    · rw [hghost g hg] at hnone
      cases hnone
  · rw [hev.ghost_freq]
    obtain ⟨hle, hsame⟩ := h.warm (hev.ghost_hit ▸ hwarm)
    exact ⟨hle, fun g hg => hsame g (hghost g hg)⟩

theorem find_in_some {queues : List Tier} (h : find_in s x queues = some (t, o)) : (s.queue t).q.lookup x = some o := by
  obtain ⟨u, -, hu⟩ := exists_of_findSome?_eq_some h
  obtain ⟨o', ho', hpair⟩ := map_eq_some_iff.1 hu
  cases hpair
  exact ho'

theorem find_in_none (h : find_in s x [.filter, .staging, .core] = none) : Absent s x := by
  simp only [find_in, findSome?_eq_none_iff, mem_cons, forall_eq_or_imp, map_eq_none_iff] at h
  obtain ⟨hf, hst, hc⟩ := h
  exact ⟨by simp [State.md, hf], by simp [State.md, hst], by simp [State.md, hc]⟩

theorem merlin_find_inv (h : Inv s) (req : Request) : Inv (merlin_find s req).1 ∧
    ((merlin_find s req).2 = false → Pending (merlin_find s req).1 req.obj_id) := by
  unfold merlin_find
  dsimp only
  set s1 : State κ := { s with ghost_hit := false, promote_ghost_to_core := false, ghost_freq := 0 } with hs1
  have h1 : Inv s1 := h.frame rfl rfl
  rcases hfind : find_in s1 req.obj_id [.filter, .staging, .core] with _ | ⟨t, o⟩
  · have habsent := find_in_none hfind
    rcases hg : (s1.queue .ghost).q.lookup req.obj_id with _ | o
    · have hnone : s1.md .ghost req.obj_id = none := by simp [State.md, hg]
      exact ⟨h1, fun _ => ⟨h1, habsent, fun _ => hnone, fun hit => Bool.noConfusion hit⟩⟩
    · have hinv := touch_inv h1 hg
      have hmd := md_touch hg
      refine ⟨hinv.frame rfl rfl, fun _ => ⟨hinv.frame rfl rfl, ⟨?_, ?_, ?_⟩, fun hit => Bool.noConfusion hit, fun _ => ?_⟩⟩
      · exact (hmd .filter req.obj_id).trans habsent.filter
      · exact (hmd .staging req.obj_id).trans habsent.staging
      · exact (hmd .core req.obj_id).trans habsent.core
      · have hself := (hmd .ghost req.obj_id).trans (if_pos ⟨rfl, rfl⟩)
        constructor
        · -- the ghost's own record is within bounds
          have hplaced := hinv.placed req.obj_id
          rw [hself] at hplaced
          generalize (s1.touch .ghost req.obj_id o).md .filter req.obj_id = a,
            (s1.touch .ghost req.obj_id o).md .staging req.obj_id = b,
            (s1.touch .ghost req.obj_id o).md .core req.obj_id = c at hplaced
          rcases hplaced with _ | _ | _ | _ | hm | ⟨-, -, hm⟩
          · exact hm
          · exact hm
        · intro g hgh
          have hsame := hself.symm.trans hgh
          cases hsame
          rfl
  · exact ⟨touch_inv h1 (find_in_some hfind), fun hit => Bool.noConfusion hit⟩

theorem insert_new_inv (h : Inv s) (hzero : m.freq = 0) (ht : s.md t req.obj_id = none)
    (hplaced : Placed ((s.insert t req m).md .filter req.obj_id) ((s.insert t req m).md .staging req.obj_id)
      ((s.insert t req m).md .core req.obj_id) ((s.insert t req m).md .ghost req.obj_id)) :
    Inv ((s.insert t req m).bump 0) := by
  apply h.of_move (x := req.obj_id)
  · intro u y hy
    simp [hy]
  · exact hplaced
  · intro f
    rw [count_bump, count_insert ht, population_bump_zero, population_insert, hzero]
    omega

theorem bumps_spec (s : State κ) (n : Nat) : ((List.range n).foldl State.bump s).queue = s.queue ∧
    ∀ f, ((List.range n).foldl State.bump s).frequency_population f =
      s.frequency_population f + if f < n then 1 else 0 := by
  induction n with
  | zero => exact ⟨rfl, fun f => by simp⟩
  | succ n ih =>
    rw [range_succ, foldl_append]
    refine ⟨ih.1, fun f => ?_⟩
    simp only [foldl_cons, foldl_nil]
    rw [population_bump, ih.2]
    split_ifs <;> omega

theorem insert_promoted_inv (h : Inv s) (habsent : Absent s req.obj_id)
    (hle : s.ghost_freq ≤ kMaxFrequency) (hsame : ∀ g, s.md .ghost req.obj_id = some g → g.freq = s.ghost_freq) :
    Inv (insert_promoted s req) := by
  unfold insert_promoted
  dsimp only
  set s1 := s.insert .core req { freq := s.ghost_freq } with hs1
  set s2 := s1.remove .ghost req.obj_id with hs2
  have hother : ∀ t y, y ≠ req.obj_id → s2.md t y = s.md t y := by
    intro t y hy
    simp [hs2, hs1, hy]
  have hplaced : Placed (s2.md .filter req.obj_id) (s2.md .staging req.obj_id) (s2.md .core req.obj_id)
      (s2.md .ghost req.obj_id) := by
    simp only [hs2, hs1, md_remove, md_insert, habsent.filter, habsent.staging]
    exact .core hle
  have hghost : s1.md .ghost req.obj_id = s.md .ghost req.obj_id := by simp [hs1]
  rcases hg : (s1.queue .ghost).q.lookup req.obj_id with _ | o
  · have hgone : (s1.queue .ghost).FIFO_remove req.obj_id = (s1.queue .ghost, false) := by
      unfold Fifo.FIFO_remove
      rw [hg]
    obtain ⟨hqueue, hpop⟩ := bumps_spec s2 (s.ghost_freq + 1)
    have hcount : ∀ f, count ((List.range (s.ghost_freq + 1)).foldl State.bump s2) f = count s1 f := by
      intro f
      have hsame : count ((List.range (s.ghost_freq + 1)).foldl State.bump s2) f = count s2 f := by
        unfold count
        rw [hqueue]
      rw [hsame, hs2, State.remove, count_set, hgone]
      dsimp only
      omega
    have hmd : ∀ t y, ((List.range (s.ghost_freq + 1)).foldl State.bump s2).md t y = s2.md t y := by
      intro t y
      rw [State.md, hqueue]
      rfl
    rw [hgone, if_neg (by simp)]
    apply h.of_move
    · intro t y hy
      exact (hmd t y).trans (hother t y hy)
    · have hplaced' := hplaced
      simp only [← hmd] at hplaced'
      exact hplaced'
    · intro f
      have hpop2 : s2.frequency_population f = s.frequency_population f := rfl
      have hpop' := hpop f
      have hcount' := hcount f
      rw [hs1, count_insert habsent.core] at hcount'
      unfold reaches at hcount'
      show (List.foldl State.bump s2 (List.range (s.ghost_freq + 1))).frequency_population f - _ =
        count (List.foldl State.bump s2 (List.range (s.ghost_freq + 1))) f - _
      rw [hpop', hcount', hpop2]
      dsimp only
      split_ifs <;> omega
  · have hkept : ((s1.queue .ghost).FIFO_remove req.obj_id).2 = true := by
      unfold Fifo.FIFO_remove
      rw [hg]
    rw [if_pos hkept]
    have hfreq := hsame o.md (hghost.symm.trans (md_some hg))
    apply h.of_move hother hplaced
    intro f
    rw [hs2, count_remove (md_some hg), hs1, count_insert habsent.core, population_remove, population_insert, hfreq]
    dsimp only
    omega

theorem merlin_insert_inv (h : Pending s req.obj_id) : Inv (merlin_insert K s req) := by
  unfold merlin_insert
  split_ifs with hwarmup hhit hpromote
  · have hcold : s.ghost_hit = false := by
      simp only [Bool.and_eq_true, Bool.not_eq_true'] at hwarmup
      exact hwarmup.1.1
    apply insert_new_inv h.inv rfl h.absent.core
    simp only [md_insert, h.absent.filter, h.absent.staging, h.cold hcold]
    exact .core (Nat.zero_le _)
  · obtain ⟨hle, hsame⟩ := h.warm hhit
    exact insert_promoted_inv (h.inv.frame rfl rfl) { h.absent with } hle hsame
  · set s1 := State.sketch_add K { s with ghost_hit := false } req.obj_id
    have hmd : ∀ t y, s1.md t y = s.md t y := fun _ _ => rfl
    have hinv1 : Inv s1 := h.inv.frame rfl rfl
    apply insert_new_inv hinv1 rfl ((hmd _ _).trans h.absent.staging)
    have hplaced := h.inv.placed req.obj_id
    simp only [md_insert, hmd, h.absent.filter, h.absent.staging, h.absent.core] at hplaced ⊢
    revert hplaced
    generalize s.md .ghost req.obj_id = g
    rintro (_ | _ | _ | _ | hg)
    · exact .staging (Nat.zero_le _)
    · exact .both rfl (Nat.zero_le _) hg
  · apply insert_new_inv h.inv rfl h.absent.filter
    simp only [md_insert, h.absent.staging, h.absent.core, h.cold (by simpa using hhit)]
    exact .filter (Nat.zero_le _)

theorem merlin_remove_inv (h : Inv s) (id : ObjId) : Inv (merlin_remove s id).1 := by
  have hstep : ∀ (l : List Tier) (w : State κ × Bool), Inv w.1 → Inv (l.foldl (remove_from id) w).1 := by
    intro l
    induction l with
    | nil => exact fun _ hw => hw
    | cons t l ih =>
      intro w hw
      apply ih
      unfold remove_from
      rcases ho : (w.1.queue t).q.lookup id with _ | o
      · exact hw
      · exact (forget_inv hw (md_some ho)).1
  have hw := hstep [.filter, .staging, .core, .ghost] (s, false) h
  unfold merlin_remove
  generalize [Tier.filter, .staging, .core, .ghost].foldl (remove_from id) (s, false) = w at hw ⊢
  exact hw.frame rfl rfl

theorem merlin_get_inv {allows : Int → Request → Bool} {fuel : State κ → Nat} {hit : Bool} (h : Inv s)
    (hget : merlin_get K allows fuel s req = some (s', hit)) : Inv s' := by
  apply CacheOps.cache_get_base_inv Inv (fun s => Pending s req.obj_id) Inv ?_ ?_ ?_ ?_ h hget
  · intro u u' hit hu hfind
    have hcount : Inv { u with n_req := u.n_req + 1 } := hu.frame rfl rfl
    obtain ⟨hinv, hmiss⟩ := merlin_find_inv hcount req
    have heq : merlin_find { u with n_req := u.n_req + 1 } req = (u', hit) := some.inj hfind
    rw [heq] at hinv hmiss
    cases hit with
    | true => simpa using hinv
    | false => simpa using hmiss rfl
  · intro u u' admitted hu hcan
    simp only [ops, some.injEq, Prod.mk.injEq] at hcan
    obtain ⟨rfl, -⟩ := hcan
    cases admitted with
    | true => simpa using hu
    | false => simpa using hu.inv
  · intro u u' hu _ hevict
    obtain ⟨hinv, hev⟩ := merlin_evict_inv hu.inv hevict
    exact hu.evict hinv hev
  · intro u u' hu _ hinsert
    simp only [ops, some.injEq] at hinsert
    exact hinsert ▸ merlin_insert_inv hu

/-! ## Runs -/

theorem init_inv (cache_size obj_md_size filter_size staging_size ghost_size : Int) (sketch : κ) (epoch_update : Int) :
    Inv (merlin_init cache_size obj_md_size filter_size staging_size ghost_size sketch epoch_update) :=
  ⟨fun _ => .nowhere, fun _ => rfl⟩

def recordsIn (c : Fifo Md) (f : Nat) : Nat := c.q.entries.countP fun e => f ≤ e.2.md.freq

theorem countIn_eq (c : Fifo Md) (f : Nat) : countIn f c = recordsIn c f := by
  unfold countIn recordsIn Table.weigh reaches
  induction c.q.entries with
  | nil => rfl
  | cons e l ih =>
    rw [map_cons, sum_cons, ih, countP_cons]
    by_cases hf : f ≤ e.2.md.freq
    · simp only [hf, if_true, decide_true]
      omega
    · simp only [hf, if_false, decide_false, Bool.false_eq_true]
      omega

/-- The histogram counts the records, and no object is in two queues of the cache. -/
structure PopulationExact (s : State κ) : Prop where
  population : ∀ f ≤ kMaxFrequency, s.frequency_population f =
    recordsIn (s.queue .filter) f + recordsIn (s.queue .staging) f + recordsIn (s.queue .core) f +
      recordsIn (s.queue .ghost) f
  filter_staging : ∀ id ∈ (s.queue .filter).q, id ∉ (s.queue .staging).q
  filter_core : ∀ id ∈ (s.queue .filter).q, id ∉ (s.queue .core).q
  staging_core : ∀ id ∈ (s.queue .staging).q, id ∉ (s.queue .core).q
  filter_ghost : ∀ id ∈ (s.queue .filter).q, id ∉ (s.queue .ghost).q
  core_ghost : ∀ id ∈ (s.queue .core).q, id ∉ (s.queue .ghost).q

theorem Inv.population_exact (h : Inv s) : PopulationExact s := by
  have hmd : ∀ {t : Tier} {id : ObjId}, id ∈ (s.queue t).q → ∃ m, s.md t id = some m := by
    intro t id hid
    obtain ⟨o, ho⟩ := Table.exists_lookup hid
    exact ⟨o.md, md_some ho⟩
  have hfilter : ∀ id ∈ (s.queue .filter).q, s.md .staging id = none ∧ s.md .core id = none ∧ s.md .ghost id = none := by
    intro id hid
    obtain ⟨m, hm⟩ := hmd hid
    obtain ⟨hst, hc, hg, -⟩ := (hm ▸ h.placed id).of_filter
    exact ⟨hst, hc, hg⟩
  have hcore : ∀ id ∈ (s.queue .core).q, s.md .staging id = none ∧ s.md .ghost id = none := by
    intro id hid
    obtain ⟨m, hm⟩ := hmd hid
    obtain ⟨-, hst, hg, -⟩ := (hm ▸ h.placed id).of_core
    exact ⟨hst, hg⟩
  refine ⟨fun f _ => ?_, fun id hid => md_none.1 (hfilter id hid).1, fun id hid => md_none.1 (hfilter id hid).2.1,
    fun id hid hc => md_none.1 (hcore id hc).1 hid, fun id hid => md_none.1 (hfilter id hid).2.2,
    fun id hid => md_none.1 (hcore id hid).2⟩
  rw [h.population]
  unfold count
  simp only [countIn_eq]

/-- Every run of gets and removes keeps the histogram exact. -/
theorem runs_population_exact (K : Sketch κ) (allows : Int → Request → Bool) (fuel : State κ → Nat)
    (cache_size obj_md_size filter_size staging_size ghost_size : Int) (sketch : κ) (epoch_update : Int)
    (calls : List Call) (s : State κ) (hrun : runs (call K allows fuel)
      (merlin_init cache_size obj_md_size filter_size staging_size ghost_size sketch epoch_update) calls = some s) :
    PopulationExact s := by
  refine (runs_inv Inv (fun _ => True) ?_ calls _ s (fun _ _ => trivial) (init_inv ..) hrun).population_exact
  intro u c u' hu _ hcall
  cases c with
  | get req =>
    obtain ⟨⟨v, hit⟩, hget, hv⟩ := map_eq_some_iff.1 hcall
    cases hv
    exact merlin_get_inv hu hget
  | remove id =>
    simp only [call, some.injEq] at hcall
    exact hcall ▸ merlin_remove_inv hu id

def counting : Sketch (ObjId → Int) where
  add c id := Function.update c id (c id + 1)
  estimate c id := c id
  decay c := fun id => c id / 2

def returning : List Call :=
  [1, 2, 3, 4, 5, 3, 6, 7, 8, 3, 4, 9, 6].map (fun id => .get { obj_id := id }) ++ [.remove 4, .get { obj_id := 2 }]

theorem runs_population_exact_returning : ∃ s, runs (call counting (fun _ _ => true) fun _ => 8)
    (merlin_init 5 0 2 1 3 (fun _ => 0) 32) returning = some s ∧ PopulationExact s := by
  exact exists_some (P := fun _ => True) (by decide +kernel) fun s hs _ =>
    runs_population_exact counting (fun _ _ => true) (fun _ => 8) 5 0 2 1 3 (fun _ => 0) 32 returning s hs

end CacheSim.Merlin
