import CacheSim.Merlin.Bytes

/-!
# Evictions go forward

Every loop of an eviction ends, and of two evictions in a row one at least frees an object.
-/

namespace CacheSim.Merlin

open Lib Multiset
open Option (bind_eq_bind bind_some)
open Bool (and_eq_true false_eq_true not_eq_true')

variable {κ : Type} {K : Sketch κ} {s s' : State κ} {C : Limits} {t u : Tier} {x : ObjId}

structure Good (C : Limits) (s : State κ) : Prop extends Inv s, Sized C s

variable {e : Sigma fun _ : ObjId => FifoObj Md}

section

variable (h : Good C s)
include h

theorem to_evict_spec (he : (s.queue t).FIFO_to_evict = some e) :
    (s.queue t).q.lookup e.1 = some e.2 ∧ s.md t e.1 = some e.2.md ∧ 1 ≤ e.2.obj_size := by
  have hlook := Fifo.lookup_to_evict he
  exact ⟨hlook, md_some hlook, h.size t e.1 e.2 hlook⟩

theorem adjust_core_step_spec
    (he : (s.queue .core).FIFO_to_evict = some e) :
    ∃ s', adjust_core_step s = some s' ∧ Good C s' ∧ s'.sizes = s.sizes ∧ s'.heat = s.heat ∧
      s'.queue .filter = s.queue .filter ∧ s'.len .core < s.len .core := by
  obtain ⟨hlook, hmd, hsize⟩ := to_evict_spec h he
  obtain ⟨-, hst, -, hm⟩ := (hmd ▸ h.placed e.1).of_core
  have hmiss : s.md .staging (obj_to_request e).obj_id = none := hst
  have hstep : adjust_core_step s =
      some ((s.insert .staging (obj_to_request e) { freq := e.2.md.freq }).remove .core e.1) := by
    simp [adjust_core_step, he, hm]
  set s1 := s.insert .staging (obj_to_request e) { freq := e.2.md.freq } with hs1
  have hlook1 : (s1.queue .core).q.lookup e.1 = some e.2 := by
    exact hlook
  have hsized : Sized C s1 := h.toSized.insert _ hsize hmiss
  refine ⟨_, hstep, ⟨(adjust_core_step_inv h.toInv hstep).1, hsized.remove .core e.1⟩, ?_, ?_, ?_, ?_⟩
  · have hout := sizes_remove hlook1 (by decide)
    rw [hs1, sizes_insert hmiss (by decide)] at hout
    exact (cons_inj_right _).1 hout.symm
  · have hout := heat_remove hlook1
    have hin := heat_insert (m := { freq := e.2.md.freq }) hmiss
    rw [← hs1] at hin
    simp at hin hout
    omega
  · rfl
  · have hout := len_remove (u := .core) hlook1
    have hin := len_insert (u := .core) (m := { freq := e.2.md.freq }) hmiss
    rw [← hs1] at hin
    simp at hin hout
    omega

theorem adjust_core_spec : ∃ s', adjust_core s = some s' ∧ Good C s' ∧ s'.sizes = s.sizes ∧
    s'.heat = s.heat ∧ s'.queue .filter = s.queue .filter ∧ (s'.queue .core).occupied_byte ≤ s'.core_limit := by
  let I : State κ → Prop :=
    fun v => Good C v ∧ v.sizes = s.sizes ∧ v.heat = s.heat ∧ v.queue .filter = s.queue .filter
  have hbody : ∀ v, I v → decide (v.core_limit < (v.queue .core).occupied_byte) = true →
      ∃ v', adjust_core_step v = some v' ∧ I v' ∧ v'.len .core < v.len .core := by
    rintro v ⟨hv, hsizes, hheat, hfilter⟩ hover
    have hlimit : v.core_limit = C.core_limit := congrArg Limits.core_limit hv.limits
    have hnonneg := hv.core_limit
    rw [decide_eq_true_eq] at hover
    obtain ⟨e, he⟩ := hv.to_evict (t := .core) (by omega)
    obtain ⟨v', hstep, hgood, h1, h2, h3, hless⟩ := adjust_core_step_spec hv he
    exact ⟨v', hstep, ⟨hgood, h1.trans hsizes, h2.trans hheat, h3.trans hfilter⟩, hless⟩
  obtain ⟨s', hloop, ⟨hgood, hsizes, hheat, hfilter⟩, hend⟩ :=
    whileLoop_total I (fun v => v.len .core) hbody (s.len .core) s ⟨h, rfl, rfl, rfl⟩ le_rfl
  exact ⟨s', hloop, hgood, hsizes, hheat, hfilter, by simpa using hend⟩

/-! ## From `staging` to `core` -/

theorem remove_from_ghost_spec (x : ObjId) :
    Good C (remove_from_ghost s x) ∧ (remove_from_ghost s x).sizes = s.sizes ∧
      ∀ t ≠ .ghost, (remove_from_ghost s x).queue t = s.queue t := by
  have hinv := (remove_from_ghost_inv h.toInv x).1
  unfold remove_from_ghost at hinv ⊢
  rcases hx : (s.queue .ghost).q.lookup x with _ | o
  · exact ⟨h, rfl, fun _ _ => rfl⟩
  · rw [hx] at hinv
    have hsized : Sized C (s.decrease o.md.freq (-1)) := h.toSized.frame rfl rfl rfl
    refine ⟨⟨hinv, hsized.remove .ghost x⟩, sizes_remove_ghost, fun t ht => ?_⟩
    rw [queue_remove, if_neg ht]
    rfl

end

theorem adjust_staging_step_hot (h : Good C s) {ret : Bool}
    (he : (s.queue .staging).FIFO_to_evict = some e) (hhot : e.2.md.freq ≠ 0) :
    ∃ s', adjust_staging_step K (s, ret) = some (s', false) ∧ Good C s' ∧ s'.sizes = s.sizes ∧ s'.heat < s.heat ∧
      s'.queue .filter = s.queue .filter ∧ s'.len .staging < s.len .staging := by
  obtain ⟨hlook, hmd, hsize⟩ := to_evict_spec h he
  obtain ⟨-, hc, -, -⟩ := (hmd ▸ h.placed e.1).of_staging
  set s1 := if e.2.md.inghost then remove_from_ghost s e.1 else s with hs1
  obtain ⟨hgood1, hsizes1, hqueue1⟩ : Good C s1 ∧ s1.sizes = s.sizes ∧ ∀ t ≠ .ghost, s1.queue t = s.queue t := by
    rw [hs1]
    split_ifs
    · exact remove_from_ghost_spec h e.1
    · exact ⟨h, rfl, fun _ _ => rfl⟩
  have hheat1 : s1.heat = s.heat := by
    unfold State.heat
    rw [hqueue1 _ (by decide), hqueue1 _ (by decide)]
  have hlen1 : s1.len .staging = s.len .staging := by
    unfold State.len
    rw [hqueue1 _ (by decide)]
  set s2 := s1.sketch_add K e.1 with hs2
  have hmiss : s2.md .core (obj_to_request e).obj_id = none := by
    show ((s1.queue .core).q.lookup e.1).map (·.md) = none
    rw [hqueue1 _ (by decide)]
    exact hc
  set s3 := s2.insert .core (obj_to_request e) { freq := e.2.md.freq - 1 } with hs3
  set s4 := s3.decrease e.2.md.freq (e.2.md.freq - 1) with hs4
  have hlook3 : (s3.queue .staging).q.lookup e.1 = some e.2 := by
    show (s1.queue .staging).q.lookup e.1 = some e.2
    rw [hqueue1 _ (by decide)]
    exact hlook
  have hstep : adjust_staging_step K (s, ret) = some (s4.remove .staging e.1, false) := by
    simp [adjust_staging_step, he, hhot, hs4, hs3, hs2, hs1]
  have hsized2 : Sized C s2 := hgood1.toSized.frame rfl rfl rfl
  have hsized4 : Sized C s4 := (hsized2.insert { freq := e.2.md.freq - 1 } hsize hmiss).frame rfl rfl rfl
  refine ⟨_, hstep, ⟨(adjust_staging_step_inv h.toInv hstep).1, hsized4.remove .staging e.1⟩, ?_, ?_, ?_, ?_⟩
  · have hout := sizes_remove (s := s4) hlook3 (by decide)
    have hin : s4.sizes = e.2.obj_size ::ₘ s1.sizes := sizes_insert (s := s2) hmiss (by decide)
    rw [hin] at hout
    exact ((cons_inj_right _).1 hout.symm).trans hsizes1
  · have hout := heat_remove (s := s4) hlook3
    have hin := heat_insert (s := s2) (m := { freq := e.2.md.freq - 1 }) hmiss
    have h2 : s2.heat = s1.heat := rfl
    have h4 : s4.heat = s3.heat := rfl
    rw [← hs3] at hin
    simp at hin hout
    omega
  · exact hqueue1 _ (by decide)
  · have hout := len_remove (s := s4) (u := .staging) hlook3
    have hin := len_insert (s := s2) (u := .staging) (m := { freq := e.2.md.freq - 1 }) hmiss
    have h2 : s2.len .staging = s1.len .staging := rfl
    have h4 : s4.len .staging = s3.len .staging := rfl
    rw [← hs3] at hin
    simp at hin hout
    omega

def Cold (s : State κ) : Prop := ∃ e, (s.queue .staging).FIFO_to_evict = some e ∧ e.2.md.freq = 0

theorem adjust_staging_spec (h : Good C s) : ∃ s' ret, adjust_staging K s = some (s', ret) ∧ Good C s' ∧
    s'.sizes = s.sizes ∧ s'.queue .filter = s.queue .filter ∧ (s' = s ∨ s'.heat < s.heat) ∧
    (ret = true → Cold s') ∧ (ret = false → s'.len .staging = 0) := by
  let I : State κ × Bool → Prop := fun w => Good C w.1 ∧ w.1.sizes = s.sizes ∧
    w.1.queue .filter = s.queue .filter ∧ (w.1 = s ∨ w.1.heat < s.heat) ∧ (w.2 = true → Cold w.1)
  let μ : State κ × Bool → Nat := fun w => if w.2 then 0 else w.1.len .staging + 1
  have hbody : ∀ w, I w → (!w.2 && decide ((w.1.queue .staging).occupied_byte > 0)) = true →
      ∃ w', adjust_staging_step K w = some w' ∧ I w' ∧ μ w' < μ w := by
    rintro ⟨v, ret⟩ ⟨hv, hsizes, hfilter, hheat, -⟩ hcond
    rw [and_eq_true, not_eq_true', decide_eq_true_eq] at hcond
    obtain ⟨rfl, hocc⟩ := hcond
    obtain ⟨e, he⟩ := hv.to_evict hocc
    rcases eq_or_ne e.2.md.freq 0 with hcold | hhot
    · exact ⟨_, show _ = some (v, true) by simp [adjust_staging_step, he, hcold],
        ⟨hv, hsizes, hfilter, hheat, fun _ => ⟨e, he, hcold⟩⟩, by simp [μ]⟩
    · obtain ⟨v', hstep, hgood, h1, h2, h3, hless⟩ := adjust_staging_step_hot hv he hhot
      refine ⟨_, hstep, ⟨hgood, h1.trans hsizes, h3.trans hfilter, Or.inr ?_, Bool.noConfusion⟩, by simp [μ, hless]⟩
      rcases hheat with rfl | hheat
      · exact h2
      · exact h2.trans hheat
  obtain ⟨⟨s', ret⟩, hloop, ⟨hgood, hsizes, hfilter, hheat, hcold⟩, hend⟩ := whileLoop_total I μ hbody
    (s.len .staging + 1) (s, false) ⟨h, rfl, rfl, Or.inl rfl, Bool.noConfusion⟩ (by simp [μ])
  refine ⟨s', ret, hloop, hgood, hsizes, hfilter, hheat, hcold, fun hret => ?_⟩
  subst hret
  have hocc : ¬ (s'.queue .staging).occupied_byte > 0 := by simpa using hend
  have hlen : (s'.len .staging : Int) ≤ (s'.queue .staging).occupied_byte := hgood.len_le_occupied .staging
  omega

/-! ## From `filter` -/

def Drops (s s' : State κ) : Prop := ∃ n, 1 ≤ n ∧ s.sizes = n ::ₘ s'.sizes

theorem Drops.of_sizes {s0 : State κ} (h : Drops s s') (hs : s.sizes = s0.sizes) : Drops s0 s' := by
  obtain ⟨n, hn, hout⟩ := h
  exact ⟨n, hn, hs ▸ hout⟩

theorem to_evict_insert {c : Fifo Md} {req : Request} {m : Md}
    (he : c.FIFO_to_evict = some e) (hmiss : req.obj_id ∉ c.q) : (c.FIFO_insert req m).FIFO_to_evict = some e := by
  unfold Fifo.FIFO_to_evict Fifo.FIFO_insert at *
  rw [AList.entries_insert_of_notMem hmiss]
  obtain ⟨l, hl⟩ := List.getLast?_eq_some_iff.1 he
  rw [hl, ← List.cons_append, List.getLast?_concat]

section

variable (h : Good C s)
include h

theorem evict_staging_spec
    (he : (s.queue .staging).FIFO_to_evict = some e) :
    ∃ s', evict_staging s = some s' ∧ Good C s' ∧ Drops s s' ∧ s'.len .filter = s.len .filter := by
  obtain ⟨hlook, -, hsize⟩ := to_evict_spec h he
  have hstep : evict_staging s = some ((s.decrease e.2.md.freq (-1)).remove .staging e.1) := by
    simp [evict_staging, he]
  have hsized : Sized C (s.decrease e.2.md.freq (-1)) := h.toSized.frame rfl rfl rfl
  refine ⟨_, hstep, ⟨(evict_staging_inv h.toInv hstep).1, hsized.remove .staging e.1⟩, ⟨e.2.obj_size, hsize, ?_⟩, ?_⟩
  · exact sizes_remove (s := s.decrease e.2.md.freq (-1)) hlook (by decide)
  · exact len_remove (s := s.decrease e.2.md.freq (-1)) (u := .filter) hlook

theorem promote_filter_candidate_spec :
    Good C (promote_filter_candidate K s).1 ∧ (promote_filter_candidate K s).1.sizes = s.sizes ∧
      (promote_filter_candidate K s).1.len .filter ≤ s.len .filter ∧
      (∀ e, (s.queue .staging).FIFO_to_evict = some e →
        ((promote_filter_candidate K s).1.queue .staging).FIFO_to_evict = some e) ∧
      ((promote_filter_candidate K s).2 = true → ∃ e, (s.queue .staging).FIFO_to_evict = some e) := by
  have hinv := (promote_filter_candidate_inv (K := K) h.toInv).1
  unfold promote_filter_candidate at hinv ⊢
  split at hinv
  · rename_i e o he ho
    split_ifs at hinv ⊢ with hhot hfalse hwins
    · exact ⟨h, rfl, le_rfl, fun _ he => he, False.elim⟩
    · exact ⟨h, rfl, le_rfl, fun _ he => he, False.elim⟩
    · obtain ⟨hlook, hmd, hsize⟩ := to_evict_spec h he
      obtain ⟨hst, -, hg, -⟩ := (hmd ▸ h.placed e.1).of_filter
      dsimp only [add_to_ghost] at hinv ⊢
      set s1 := s.sketch_add K e.1 with hs1
      have hmiss : s1.md .staging (obj_to_request e).obj_id = none := hst
      set s2 := s1.insert .staging (obj_to_request e) { inghost := true } with hs2
      set s3 := s2.bump 0 with hs3
      have hmiss3 : s3.md .ghost (obj_to_request e).obj_id = none := by
        exact hg
      set s4 := s3.insert .ghost (obj_to_request e) { freq := e.2.md.freq } with hs4
      have hsized1 : Sized C s1 := h.toSized.frame rfl rfl rfl
      have hsized3 : Sized C s3 := (hsized1.insert { inghost := true } hsize hmiss).frame rfl rfl rfl
      have hsized4 : Sized C s4 := hsized3.insert _ hsize hmiss3
      have hfilter : s4.queue .filter = s.queue .filter := by
        rfl
      have hlook4 : (s4.queue .filter).q.lookup e.1 = some e.2 := by
        exact hlook
      refine ⟨⟨hinv, hsized4.remove .filter e.1⟩, ?_, ?_, fun e' he' => ?_, fun _ => ⟨o, ho⟩⟩
      · have hout := sizes_remove hlook4 (by decide)
        have hin : s4.sizes = e.2.obj_size ::ₘ s.sizes := by
          exact sizes_insert hmiss (by decide)
        rw [hin] at hout
        exact (cons_inj_right _).1 hout.symm
      · have hout := len_remove (u := .filter) hlook4
        have hsame : s4.len .filter = s.len .filter := congrArg (fun c : Fifo Md => c.q.entries.length) hfilter
        omega
      · exact to_evict_insert he' (md_none.1 hmiss)
    · exact ⟨h, rfl, le_rfl, fun _ he => he, False.elim⟩
  · exact ⟨h, rfl, le_rfl, fun _ he => he, Bool.noConfusion⟩

section

variable (he : (s.queue .filter).FIFO_to_evict = some e)
include he

theorem adjust_filter_step_hot {evicted : Bool} (hhot : e.2.md.freq ≥ s.guard_freq) :
    ∃ s', adjust_filter_step K (s, evicted) = some (s', false) ∧ Good C s' ∧ s'.sizes = s.sizes ∧
      s'.len .filter < s.len .filter := by
  obtain ⟨hlook, hmd, hsize⟩ := to_evict_spec h he
  obtain ⟨-, hc, -, -⟩ := (hmd ▸ h.placed e.1).of_filter
  have hmiss : s.md .core (obj_to_request e).obj_id = none := hc
  set s1 := s.insert .core (obj_to_request e) {} with hs1
  set s2 := (s1.decrease e.2.md.freq 0).sketch_add K e.1 with hs2
  have hlook1 : (s1.queue .filter).q.lookup e.1 = some e.2 := by
    exact hlook
  have hstep : adjust_filter_step K (s, evicted) = some (s2.remove .filter e.1, false) := by
    simp [adjust_filter_step, he, hhot, hs2, hs1]
  have hsized2 : Sized C s2 := (h.toSized.insert {} hsize hmiss).frame rfl rfl rfl
  refine ⟨_, hstep, ⟨(adjust_filter_step_inv h.toInv hstep).1, hsized2.remove .filter e.1⟩, ?_, ?_⟩
  · have hout := sizes_remove (s := s2) hlook1 (by decide)
    have hin : s2.sizes = e.2.obj_size ::ₘ s.sizes := sizes_insert hmiss (by decide)
    rw [hin] at hout
    exact (cons_inj_right _).1 hout.symm
  · have hout := len_remove (s := s2) (u := .filter) hlook1
    have hin : s2.len .filter = s.len .filter := len_insert (u := .filter) hmiss
    simp at hout
    omega

theorem adjust_filter_step_cold {evicted : Bool} (hcold : ¬ e.2.md.freq ≥ s.guard_freq) :
    ∃ s', adjust_filter_step K (s, evicted) = some (s', true) ∧ Good C s' ∧ Drops s s' ∧
      s'.len .filter ≤ s.len .filter := by
  obtain ⟨hgood, hsizes, hlen, htail, hsome⟩ := promote_filter_candidate_spec h
  rcases hpromoted : (promote_filter_candidate K s).2 with _ | _
  · have hsame := promote_filter_candidate_false hpromoted
    obtain ⟨hlook, hmd, hsize⟩ := to_evict_spec h he
    obtain ⟨-, -, hg, -⟩ := (hmd ▸ h.placed e.1).of_filter
    have hmiss : s.md .ghost (obj_to_request e).obj_id = none := hg
    set s1 := s.insert .ghost (obj_to_request e) { freq := e.2.md.freq } with hs1
    set s2 := s1.sketch_add K e.1 with hs2
    have hlook1 : (s1.queue .filter).q.lookup e.1 = some e.2 := by
      exact hlook
    have hstep : adjust_filter_step K (s, evicted) = some (s2.remove .filter e.1, true) := by
      simp only [adjust_filter_step, he, bind_eq_bind, bind_some, hcold, hpromoted, hsame,
        false_eq_true]
      rfl
    have hsized2 : Sized C s2 := (h.toSized.insert { freq := e.2.md.freq } hsize hmiss).frame rfl rfl rfl
    refine ⟨_, hstep, ⟨(adjust_filter_step_inv h.toInv hstep).1, hsized2.remove .filter e.1⟩,
      ⟨e.2.obj_size, hsize, ?_⟩, ?_⟩
    · have hout := sizes_remove hlook1 (by decide)
      have hin : s2.sizes = s.sizes := by
        show s1.sizes = _
        rw [hs1, sizes_insert_ghost]
      exact hin ▸ hout
    · have hout := len_remove (s := s2) (u := .filter) hlook1
      have hin : s2.len .filter = s.len .filter := len_insert hmiss
      omega
  · obtain ⟨o, ho⟩ := hsome hpromoted
    obtain ⟨s', hevict, hgood', hdrops, hlen'⟩ := evict_staging_spec hgood (htail o ho)
    refine ⟨s', ?_, hgood', hdrops.of_sizes hsizes, hlen'.trans_le hlen⟩
    simp only [adjust_filter_step, he, bind_eq_bind, bind_some, hcold, if_false, hpromoted, if_true,
      hevict, Option.pure_def]

end

theorem adjust_filter_spec : ∃ s' evicted, adjust_filter K s = some (s', evicted) ∧ Good C s' ∧
    s'.len .filter ≤ s.len .filter ∧ (Drops s s' ∨ s'.sizes = s.sizes ∧ s'.len .filter = 0) := by
  let I : State κ × Bool → Prop := fun w => Good C w.1 ∧ w.1.len .filter ≤ s.len .filter ∧
    (w.2 = true → Drops s w.1) ∧ (w.2 = false → w.1.sizes = s.sizes)
  let μ : State κ × Bool → Nat := fun w => if w.2 then 0 else w.1.len .filter
  have hbody : ∀ w, I w → (!w.2 && decide ((w.1.queue .filter).occupied_byte > 0)) = true →
      ∃ w', adjust_filter_step K w = some w' ∧ I w' ∧ μ w' < μ w := by
    rintro ⟨v, evicted⟩ ⟨hv, hle, -, hsizes⟩ hcond
    rw [and_eq_true, not_eq_true', decide_eq_true_eq] at hcond
    obtain ⟨rfl, hocc⟩ := hcond
    obtain ⟨e, he⟩ := hv.to_evict hocc
    by_cases hhot : e.2.md.freq ≥ v.guard_freq
    · obtain ⟨v', hstep, hgood, hsame, hless⟩ := adjust_filter_step_hot hv he hhot
      exact ⟨_, hstep, ⟨hgood, hless.le.trans hle, Bool.noConfusion, fun _ => hsame.trans (hsizes rfl)⟩,
        by simp [μ, hless]⟩
    · obtain ⟨v', hstep, hgood, hdrops, hless⟩ := adjust_filter_step_cold hv he hhot
      refine ⟨_, hstep, ⟨hgood, hless.trans hle, fun _ => hdrops.of_sizes (hsizes rfl), Bool.noConfusion⟩, ?_⟩
      have hpos : v.len .filter ≠ 0 := by
        intro hzero
        rw [State.len, List.length_eq_zero_iff] at hzero
        unfold Fifo.FIFO_to_evict at he
        simp [hzero] at he
      simp only [μ, if_true, false_eq_true, if_false]
      omega
  obtain ⟨⟨s', evicted⟩, hloop, ⟨hgood, hle, hdrops, hsizes⟩, hend⟩ := whileLoop_total I μ hbody (s.len .filter)
    (s, false) ⟨h, le_rfl, Bool.noConfusion, fun _ => rfl⟩ (by simp [μ])
  refine ⟨s', evicted, hloop, hgood, hle, ?_⟩
  cases evicted with
  | true => exact Or.inl (hdrops rfl)
  | false =>
    refine Or.inr ⟨hsizes rfl, ?_⟩
    have hocc : ¬ (s'.queue .filter).occupied_byte > 0 := by simpa using hend
    have hlen : (s'.len .filter : Int) ≤ (s'.queue .filter).occupied_byte := hgood.len_le_occupied .filter
    omega

theorem adjust_ghost_spec : ∃ s', adjust_ghost s = some s' ∧ Good C s' ∧
    (∀ t ≠ .ghost, s'.queue t = s.queue t) ∧ (s'.queue .ghost).occupied_byte ≤ C.ghost_limit := by
  let I : State κ → Prop := fun v => Good C v ∧ ∀ t ≠ .ghost, v.queue t = s.queue t
  have hbody : ∀ v, I v → decide ((v.queue .ghost).occupied_byte > v.ghost_limit) = true →
      ∃ v', adjust_ghost_step v = some v' ∧ I v' ∧ v'.len .ghost < v.len .ghost := by
    rintro v ⟨hv, hsame⟩ hover
    have hlimit : v.ghost_limit = C.ghost_limit := congrArg Limits.ghost_limit hv.limits
    have hnonneg := hv.ghost_limit
    rw [decide_eq_true_eq] at hover
    obtain ⟨e, he⟩ := hv.to_evict (t := .ghost) (by omega)
    obtain ⟨hlook, -, -⟩ := to_evict_spec hv he
    have hstep : adjust_ghost_step v = some ((v.remove .ghost e.1).decrease e.2.md.freq (-1)) := by
      simp [adjust_ghost_step, he]
    have hsized : Sized C ((v.remove .ghost e.1).decrease e.2.md.freq (-1)) :=
      (hv.toSized.remove .ghost e.1).frame rfl rfl rfl
    refine ⟨_, hstep, ⟨⟨(adjust_ghost_step_inv hv.toInv hstep).1, hsized⟩, fun t ht => ?_⟩, ?_⟩
    · show (v.remove .ghost e.1).queue t = _
      rw [queue_remove, if_neg ht, hsame t ht]
    · have hout := len_remove (u := .ghost) hlook
      simp only [if_true] at hout
      show (v.remove .ghost e.1).len .ghost < _
      omega
  obtain ⟨s', hloop, ⟨hgood, hsame⟩, hend⟩ :=
    whileLoop_total I (fun v => v.len .ghost) hbody (s.len .ghost) s ⟨h, fun _ _ => rfl⟩ le_rfl
  have hlimit : s'.ghost_limit = C.ghost_limit := congrArg Limits.ghost_limit hgood.limits
  refine ⟨s', hloop, hgood, hsame, ?_⟩
  rw [decide_eq_false_iff_not] at hend
  omega

end

theorem fitting_guard_spec (hpos : 1 ≤ s.guard_freq) (hle : s.guard_freq ≤ kMaxFrequency) :
    ∃ g, fitting_guard s = some g ∧ 1 ≤ g ∧ g ≤ kMaxFrequency := by
  let I : Nat → Prop := fun g => 1 ≤ g ∧ g ≤ kMaxFrequency
  unfold fitting_guard
  dsimp only
  split_ifs
  · have hbody : ∀ g, I g → (decide (g < kMaxFrequency) &&
        decide (s.frequency_population g > (s.queue .core).n_obj)) = true →
        ∃ g', some (g + 1) = some g' ∧ I g' ∧ kMaxFrequency - g' < kMaxFrequency - g := by
      rintro g ⟨h1, h2⟩ hcond
      rw [and_eq_true, decide_eq_true_eq] at hcond
      exact ⟨g + 1, rfl, ⟨by omega, hcond.1⟩, by omega⟩
    obtain ⟨g, hg, hI, -⟩ := whileLoop_total I (fun g => kMaxFrequency - g) hbody kMaxFrequency s.guard_freq
      ⟨hpos, hle⟩ (Nat.sub_le _ _)
    exact ⟨g, hg, hI⟩
  · have hbody : ∀ g, I g → (decide (g > 1) &&
        decide (s.frequency_population (g - 1) < (s.queue .core).n_obj)) = true →
        ∃ g', some (g - 1) = some g' ∧ I g' ∧ g' < g := by
      rintro g ⟨h1, h2⟩ hcond
      rw [and_eq_true, decide_eq_true_eq] at hcond
      exact ⟨g - 1, rfl, ⟨by omega, by omega⟩, by omega⟩
    obtain ⟨g, hg, hI, -⟩ := whileLoop_total I (fun g => g) hbody s.guard_freq s.guard_freq ⟨hpos, hle⟩ le_rfl
    exact ⟨g, hg, hI⟩

/-! ## The exchange -/

/-- An object goes; or the objects of `filter` go into `core`, which cannot happen again. -/
def Advances (s s' : State κ) : Prop :=
  s'.len .filter ≤ s.len .filter ∧
    (Drops s s' ∨ s'.sizes = s.sizes ∧ s'.len .filter = 0 ∧ 0 < s.len .filter)

theorem Advances.congr {s0 s1 : State κ} (h : Advances s s') (hsizes : s.sizes = s0.sizes)
    (hfilter : s.queue .filter = s0.queue .filter) (hsizes' : s1.sizes = s'.sizes)
    (hfilter' : s1.queue .filter = s'.queue .filter) : Advances s0 s1 := by
  obtain ⟨hle, hcase⟩ := h
  unfold Advances Drops State.len at *
  rw [hsizes', ← hsizes, hfilter', ← hfilter]
  exact ⟨hle, hcase⟩

theorem evict_core_spec (h : Good C s) (hsome : s.sizes ≠ 0) (hstaging : s.len .staging = 0) :
    ∃ s', evict_core K s = some s' ∧ Good C s' ∧ Advances s s' := by
  unfold evict_core
  rcases hvictim : (s.queue .core).FIFO_to_evict with _ | victim
  · have hcore : s.len .core = 0 := by
      by_contra hne
      obtain ⟨e, he⟩ := to_evict_of_len hne
      rw [hvictim] at he
      cases he
    have hcard := card_sizes s
    have hpos := card_pos.2 hsome
    obtain ⟨s', evicted, hadjust, hgood, hle, hcase⟩ := adjust_filter_spec (K := K) h
    refine ⟨s', by simp [hadjust], hgood, hle, ?_⟩
    rcases hcase with hdrops | ⟨hsizes, hzero⟩
    · exact Or.inl hdrops
    · exact Or.inr ⟨hsizes, hzero, by omega⟩
  · obtain ⟨hlook, hmd, hsize⟩ := to_evict_spec h hvictim
    have hsized : Sized C (s.decrease victim.2.md.freq (-1)) := h.toSized.frame rfl rfl rfl
    refine ⟨_, rfl, ⟨(forget_inv h.toInv hmd).1, hsized.remove .core victim.1⟩, ?_,
      Or.inl ⟨victim.2.obj_size, hsize, ?_⟩⟩
    · exact (len_remove (s := s.decrease victim.2.md.freq (-1)) (u := .filter) hlook).le
    · exact sizes_remove (s := s.decrease victim.2.md.freq (-1)) hlook (by decide)

theorem sizes_congr (h : ∀ t ≠ .ghost, s'.queue t = s.queue t) : s'.sizes = s.sizes := by
  unfold State.sizes
  rw [h _ (by decide), h _ (by decide), h _ (by decide)]

structure Exchanged (C : Limits) (s : State κ) (w : Exchange κ) : Prop where
  good : Good C w.s
  returned : w.done = true → Advances s w.s ∧ (w.s.queue .ghost).occupied_byte ≤ C.ghost_limit
  sizes : w.done = false → w.s.sizes = s.sizes
  filter : w.done = false → w.s.queue .filter = s.queue .filter
  cold : w.done = false → w.ret = true → Cold w.s

theorem exchange_step_spec (hsome : s.sizes ≠ 0) {w : Exchange κ} (h : Exchanged C s w) (hdone : w.done = false) :
    ∃ w', exchange_step K w = some w' ∧ Exchanged C s w' ∧
      (w'.ret = false → w'.done = false → w'.s.heat < w.s.heat) := by
  obtain ⟨s1, hcore, hgood1, hsizes1, hheat1, hfilter1, hlimit1⟩ := adjust_core_spec h.good
  obtain ⟨s2, ret, hstaging, hgood2, hsizes2, hfilter2, hheat2, hcold, hempty⟩ := adjust_staging_spec (K := K) hgood1
  have hsizes : s2.sizes = s.sizes := hsizes2.trans (hsizes1.trans (h.sizes hdone))
  have hfilter : s2.queue .filter = s.queue .filter := hfilter2.trans (hfilter1.trans (h.filter hdone))
  unfold exchange_step
  simp only [hcore, hstaging, bind_eq_bind, bind_some]
  split_ifs with hstop
  · rw [and_eq_true, not_eq_true', decide_eq_true_eq] at hstop
    obtain ⟨s3, hevict, hgood3, hadvances⟩ := evict_core_spec (K := K) hgood2 (hsizes ▸ hsome) (hempty hstop.1)
    obtain ⟨s4, hghost, hgood4, hsame, hle⟩ := adjust_ghost_spec hgood3
    simp only [hevict, hghost, bind_some]
    refine ⟨_, rfl, ⟨hgood4, fun _ => ⟨?_, hle⟩, Bool.noConfusion, Bool.noConfusion, Bool.noConfusion⟩,
      fun _ => Bool.noConfusion⟩
    exact hadvances.congr hsizes hfilter (sizes_congr hsame) (hsame _ (by decide))
  · refine ⟨_, rfl, ⟨hgood2, Bool.noConfusion, fun _ => hsizes, fun _ => hfilter, fun _ => hcold⟩, fun hret _ => ?_⟩
    rcases hheat2 with rfl | hless
    · -- `staging` had nothing to move, and `core` is within its limit
      have hret' : ret = false := hret
      rw [hret'] at hstop
      exact absurd (by simpa using hlimit1) hstop
    · exact hless.trans_eq hheat1

theorem exchange_spec (h : Good C s) (hsome : s.sizes ≠ 0) :
    ∃ w, exchange K s = some w ∧ Exchanged C s w ∧ (w.done = false → w.ret = true) := by
  let μ : Exchange κ → Nat := fun w => if w.ret || w.done then 0 else w.s.heat + 1
  have hbody : ∀ w, Exchanged C s w → (!w.ret && !w.done) = true →
      ∃ w', exchange_step K w = some w' ∧ Exchanged C s w' ∧ μ w' < μ w := by
    intro w hw hgo
    rw [and_eq_true, not_eq_true', not_eq_true'] at hgo
    obtain ⟨w', hstep, hw', hheat⟩ := exchange_step_spec hsome hw hgo.2
    refine ⟨w', hstep, hw', ?_⟩
    simp only [μ, hgo.1, hgo.2, Bool.or_self, false_eq_true, if_false]
    split_ifs with hend
    · omega
    · rw [Bool.or_eq_true, not_or] at hend
      have := hheat (by simpa using hend.1) (by simpa using hend.2)
      omega
  have hfuel : μ { s := s } ≤ ((((s.queue .staging).q.entries ++ (s.queue .core).q.entries).map (·.2.md.freq)).sum + 1) := by
    simp [μ, State.heat, heatIn]
  have hstart : Exchanged C s { s := s } :=
    ⟨h, Bool.noConfusion, fun _ => rfl, fun _ => rfl, fun _ => Bool.noConfusion⟩
  obtain ⟨w, hloop, hw, hend⟩ := whileLoop_total (Exchanged C s) μ hbody _ { s := s } hstart hfuel
  refine ⟨w, hloop, hw, fun hdone => ?_⟩
  rw [hdone] at hend
  simpa using hend

theorem count_eviction_same (s : State κ) : (count_eviction K s).queue = s.queue ∧
    (count_eviction K s).limits = s.limits ∧ (count_eviction K s).guard_freq = s.guard_freq ∧
    (count_eviction K s).frequency_population = s.frequency_population := by
  unfold count_eviction
  dsimp only
  split_ifs <;> exact ⟨rfl, rfl, rfl, rfl⟩

theorem merlin_evict_spec (h : Good C s) (req : Option Request) : ∃ s', merlin_evict K s req = some s' ∧ Good C s' ∧
    (s.sizes = 0 → s'.queue = s.queue) ∧
    (s.sizes ≠ 0 → Advances s s' ∧ (s'.queue .ghost).occupied_byte ≤ C.ghost_limit) := by
  obtain ⟨hqueue, hlimits, hguard, hpop⟩ := count_eviction_same (K := K) s
  have hsized0 : Sized C (count_eviction K s) := h.toSized.frame hlimits hqueue hguard
  obtain ⟨g, hg, hpos, hle⟩ := fitting_guard_spec hsized0.guard_pos hsized0.guard_le
  set u : State κ := { count_eviction K s with guard_freq := g } with hu
  have hadjust : adjust_guard (count_eviction K s) = some u := by simp [adjust_guard, hg, hu]
  have hgood : Good C u := by
    refine ⟨h.toInv.frame hqueue hpop, ?_⟩
    exact ⟨hlimits.trans h.limits, h.md_nonneg, h.core_limit, h.ghost_limit, hsized0.fifo, hsized0.size, hsized0.md,
      hpos, hle⟩
  have hsame : u.queue = s.queue := hqueue
  have hsizes : u.sizes = s.sizes := sizes_congr fun t _ => by rw [hsame]
  have hn : u.merlin_get_n_obj = s.sizes.card := by rw [hgood.n_obj_eq, hsizes]
  unfold merlin_evict
  simp only [hadjust, bind_eq_bind, bind_some, hn]
  split_ifs with hempty hfilter
  · have hzero : s.sizes = 0 := by
      rw [← card_eq_zero]
      exact_mod_cast hempty
    exact ⟨u, rfl, hgood, fun _ => hsame, fun hne => absurd hzero hne⟩
  · obtain ⟨s1, evicted, hadj, hgood1, hle1, hcase⟩ := adjust_filter_spec (K := K) hgood
    obtain ⟨s2, hghost, hgood2, hsame2, hle2⟩ := adjust_ghost_spec hgood1
    have hlen : 0 < u.len .filter := by
      have hcount := hfilter.1
      rw [hgood.n_obj, ← len_eq_card] at hcount
      omega
    have hadvances : Advances u s1 := by
      refine ⟨hle1, ?_⟩
      rcases hcase with hdrops | ⟨h1, h2⟩
      · exact Or.inl hdrops
      · exact Or.inr ⟨h1, h2, hlen⟩
    refine ⟨s2, by simp [hadj, hghost], hgood2, fun hzero => absurd (by simp [hzero]) hempty, fun _ => ⟨?_, hle2⟩⟩
    exact hadvances.congr hsizes (by rw [hsame]) (sizes_congr hsame2) (hsame2 _ (by decide))
  · have hsome : u.sizes ≠ 0 := by
      rw [hsizes]
      intro hzero
      exact hempty (by simp [hzero])
    obtain ⟨w, hexchange, hw, hret⟩ := exchange_spec (K := K) hgood hsome
    simp only [hexchange, bind_some]
    have hnever : s.sizes = 0 → False := fun hzero => hsome (hsizes.trans hzero)
    split_ifs with hdone
    · obtain ⟨hadvances, hle1⟩ := hw.returned hdone
      refine ⟨w.s, rfl, hw.good, fun hzero => (hnever hzero).elim, fun _ => ⟨?_, hle1⟩⟩
      exact hadvances.congr hsizes (by rw [hsame]) rfl rfl
    · have hdone' : w.done = false := by simpa using hdone
      obtain ⟨e, he, -⟩ := hw.cold hdone' (hret hdone')
      obtain ⟨hgood1, hsizes1, hle1, htail, -⟩ := promote_filter_candidate_spec (K := K) hw.good
      obtain ⟨s2, hevict, hgood2, hdrops, hlen2⟩ := evict_staging_spec hgood1 (htail e he)
      obtain ⟨s3, hghost, hgood3, hsame3, hle3⟩ := adjust_ghost_spec hgood2
      refine ⟨s3, by simp [hevict, hghost], hgood3, fun hzero => (hnever hzero).elim, fun _ => ⟨?_, hle3⟩⟩
      have hadvances : Advances w.s s2 := ⟨hlen2.trans_le hle1, Or.inl (hdrops.of_sizes hsizes1)⟩
      refine hadvances.congr ((hw.sizes hdone').trans hsizes) ?_ (sizes_congr hsame3) (hsame3 _ (by decide))
      rw [hw.filter hdone', hsame]

end CacheSim.Merlin
