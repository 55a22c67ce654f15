import CacheSim.Arc.Promotion
import CacheSim.Car.Proofs

/-!
# CAR promotes what a flag names

The flags are not cleared until an object is inserted, whichever that is: a ghost hit that is refused
leaves them to a later request.
-/

namespace CacheSim.Car

open Lib Directory Option Dir

variable {s s' : State} {req : Request}

def ghostHit (s : State) : Bool := s.curr_obj_in_L1_ghost || s.curr_obj_in_L2_ghost

structure Trims (s s' : State) : Prop where
  dir : s.toDir.Trims s'.toDir
  ghostHit : ghostHit s' = ghostHit s

theorem Trims.trans {t : State} (h : Trims s s') (h' : Trims s' t) : Trims s t :=
  ⟨h.dir.trans h'.dir, h'.ghostHit.trans h.ghostHit⟩

theorem onDir_trims {f : Dir → Dir} (h : s.toDir.Trims (f s.toDir)) : Trims s (s.onDir f) := by
  refine ⟨h, ?_⟩
  rfl

variable {rnd : ℚ → ℚ}

theorem replace_round_trims {found : Bool} (hs : CAR_replace_round rnd s = some (s', found)) : Trims s s' := by
  unfold CAR_replace_round at hs
  split_ifs at hs
  all_goals
    obtain ⟨i, -, hs⟩ := bind_eq_some_iff.1 hs
    obtain ⟨o, ho, hs⟩ := bind_eq_some_iff.1 hs
    split_ifs at hs
    all_goals cases hs
  · exact onDir_trims (demote_trims ho)
  · exact onDir_trims (promote_trims ho _ false false)
  · exact onDir_trims (demote_trims ho)
  · exact onDir_trims (turn_trims ho _ false .L2_data)

theorem replace_trims (hs : CAR_replace rnd s = some s') : Trims s s' := by
  obtain ⟨⟨t, found⟩, hloop, hs⟩ := bind_eq_some_iff.1 hs
  cases hs
  exact (whileLoop_inv (fun w : State × Bool => Trims s w.1) (fun _ _ ht _ hb => ht.trans (replace_round_trims hb)) _ _ _
    ⟨Dir.Trims.refl _, rfl⟩ hloop).1

theorem discard_trims {k : ListId} (hs : CAR_discard_LRU_ghost k s = some s') : Trims s s' := by
  obtain ⟨i, -, hs⟩ := bind_eq_some_iff.1 hs
  obtain ⟨o, ho, hs⟩ := bind_eq_some_iff.1 hs
  cases hs
  exact onDir_trims (discard_trims ho)

theorem evict_trims (hs : CAR_evict rnd s req = some s') : Trims s s' := by
  unfold CAR_evict at hs
  split_ifs at hs
  · cases hs
    exact ⟨Dir.Trims.refl _, rfl⟩
  · obtain ⟨t, ht, hs⟩ := bind_eq_some_iff.1 hs
    have htrims := replace_trims ht
    split_ifs at hs
    · exact htrims.trans (discard_trims hs)
    · exact htrims.trans (discard_trims hs)
    · cases hs
      exact htrims
    · cases hs
      exact htrims

theorem find_missed (hs : CAR_find rnd (s.onDir Dir.count_req) req = some (s', false)) :
    s'.dir.table req.obj_id = none ∧ (ghostHit s' = true ↔ ghostHit s = true ∨ s.toDir.Ghost req.obj_id) ∧
      s'.cache_can_insert_default req = s.cache_can_insert_default req := by
  unfold CAR_find at hs
  rcases ht : (s.onDir Dir.count_req).dir.table req.obj_id with _ | obj <;> rw [ht] at hs
  · cases hs
    have ht' : s.dir.table req.obj_id = none := ht
    exact ⟨ht, by simp [ghostHit, State.onDir, Dir.Ghost, ht'], rfl⟩
  · have ht' : s.dir.table req.obj_id = some obj := ht
    have hgone : ((s.onDir Dir.count_req).discard req.obj_id obj).dir.table req.obj_id = none := by simp [Dir.discard]
    have hadm : ((s.onDir Dir.count_req).discard req.obj_id obj).cache_can_insert_default req =
        s.cache_can_insert_default req := by
      simp [Dir.discard, Dir.remove_obj_from_list, Dir.cache_can_insert_default, State.onDir]
    dsimp only at hs
    split_ifs at hs with hg hl
    · obtain ⟨-, -, hs⟩ := bind_eq_some_iff.1 hs
      cases hs
      exact ⟨hgone, iff_of_true (by simp [ghostHit, find_in_L1_ghost]) (.inr ⟨obj, ht', hg⟩), hadm⟩
    · obtain ⟨-, -, hs⟩ := bind_eq_some_iff.1 hs
      cases hs
      exact ⟨hgone, iff_of_true (by simp [ghostHit, find_in_L2_ghost]) (.inr ⟨obj, ht', hg⟩), hadm⟩
    · cases hs

theorem find_found (hs : CAR_find rnd (s.onDir Dir.count_req) req = some (s', true)) : ghostHit s' = ghostHit s := by
  unfold CAR_find at hs
  rcases ht : (s.onDir Dir.count_req).dir.table req.obj_id with _ | obj <;> rw [ht] at hs
  · cases hs
  · dsimp only at hs
    split_ifs at hs
    · obtain ⟨-, -, hs⟩ := bind_eq_some_iff.1 hs
      cases hs
    · obtain ⟨-, -, hs⟩ := bind_eq_some_iff.1 hs
      cases hs
    · cases hs
      rfl

theorem insert_placed (hs : CAR_insert s req = some s') :
    s'.toDir.Placed (if ghostHit s then .L2_data else .L1_data) req.obj_id ∧ ghostHit s' = false := by
  unfold CAR_insert at hs
  unfold ghostHit
  split_ifs at hs ⊢ with hflags
  · cases hs
    exact ⟨enter_placed s.toDir req 2 false, rfl⟩
  · cases hs
    exact ⟨enter_placed s.toDir req 1 false, Bool.eq_false_iff.2 hflags⟩

/-- An object that a get inserts enters the list that is right for it if and only if no flag is left over, or the
get has hit its ghost. -/
theorem get_promotes_iff (hget : CAR_get rnd s req = some (s', false)) (hin : s'.toDir.Resident req.obj_id) :
    s.toDir.Promotes s'.toDir req.obj_id ↔ ghostHit s = false ∨ s.toDir.Ghost req.obj_id := by
  obtain ⟨s1, s2, admitted, hf, hc, hrest⟩ := CacheOps.cache_get_base_missed hget
  obtain ⟨hout, hghost, -⟩ := find_missed hf
  cases hc
  split_ifs at hrest
  · obtain ⟨s3, hw, hi⟩ := hrest
    obtain ⟨htrims, -⟩ := whileLoop_inv (Trims s1) (fun _ _ ht _ hb => ht.trans (evict_trims hb)) _ _ _
      ⟨Dir.Trims.refl _, rfl⟩ hw
    have hplaced := (insert_placed hi).1
    rw [htrims.ghostHit] at hplaced
    rw [hplaced.promotes_iff, hghost, ← Bool.not_eq_true]
    tauto
  · subst hrest
    obtain ⟨o, ho, -⟩ := hin
    rw [hout] at ho
    cases ho

theorem get_clears {hit : Bool} (h : ghostHit s = false)
    (hadm : s.toDir.Ghost req.obj_id → s.cache_can_insert_default req = true) (hget : CAR_get rnd s req = some (s', hit)) :
    ghostHit s' = false := by
  cases hit with
  | true => rw [find_found (CacheOps.cache_get_base_found hget), h]
  | false =>
    obtain ⟨s1, s2, admitted, hf, hc, hrest⟩ := CacheOps.cache_get_base_missed hget
    obtain ⟨-, hghost, hsame⟩ := find_missed hf
    cases hc
    split_ifs at hrest with hadm'
    · obtain ⟨s3, -, hi⟩ := hrest
      exact (insert_placed hi).2
    · subst hrest
      rw [hsame] at hadm'
      rw [← Bool.not_eq_true, hghost]
      rintro (hflag | hg)
      · rw [h] at hflag
        cases hflag
      · exact hadm' (hadm hg)

/-! ## Runs -/

def CAR_serve (rnd : ℚ → ℚ) (s : State) (req : Request) : Option State := (CAR_get rnd s req).map Prod.fst

/-- ARC places every object right. CAR does if and only if no flag is left over from an earlier request, or the get has
hit the ghost of its object; and so always in a run whose ghost hits are all admitted. -/
theorem promotions_right_iff (rnd : ℚ → ℚ) (cache_size : Nat) (md : Bool) (p : Int) (adm : Option (Request → Bool)) :
    (∀ reqs s, runs (Arc.ARC_serve rnd) (Arc.ARC_init cache_size md adm) reqs = some s → ∀ req s',
      Arc.ARC_get rnd s req = some (s', false) → s'.toDir.Resident req.obj_id → s.toDir.Promotes s'.toDir req.obj_id) ∧
    (∀ reqs s, runs (CAR_serve rnd) (CAR_init cache_size md p adm) reqs = some s → ∀ req s',
      CAR_get rnd s req = some (s', false) → s'.toDir.Resident req.obj_id →
        (s.toDir.Promotes s'.toDir req.obj_id ↔ ghostHit s = false ∨ s.toDir.Ghost req.obj_id)) ∧
    ∀ s, Reach (CAR_serve rnd) (fun s req => s.toDir.Ghost req.obj_id → s.cache_can_insert_default req = true)
      (CAR_init cache_size md p adm) s → ghostHit s = false := by
  refine ⟨fun reqs s hr req s' => Arc.runs_promote rnd cache_size md adm hr, fun _ _ _ _ _ => get_promotes_iff, fun s hr => ?_⟩
  apply hr.inv (fun t => ghostHit t = false) _ rfl
  intro t req t' ht hadm hs
  obtain ⟨⟨u, hit⟩, hu, rfl⟩ := map_eq_some_iff.1 hs
  exact get_clears ht hadm hu

/-- Object 1 is in T2, 3 in T1 and 2 in B1. The get of 2 takes it from there to T2, and 3 leaves for B1. -/
theorem promotions_right_of_ghost : ∃ s s',
    runs (CAR_serve fun x => x) (CAR_init 2 false) ([1, 1, 2, 3].map fun id => { obj_id := id }) = some s ∧
      s.toDir.Ghost 2 ∧ s.toDir.Resident 3 ∧ CAR_get (fun x => x) s { obj_id := 2 } = some (s', false) ∧ s'.toDir.Ghost 3 ∧
      s.toDir.Promotes s'.toDir 2 := by
  obtain ⟨s, hs, hghost, hin, ⟨s', _⟩, hget, rfl, hres, hout⟩ : ∃ s,
      runs (CAR_serve fun x => x) (CAR_init 2 false) ([1, 1, 2, 3].map fun id => { obj_id := id }) = some s ∧
      (∃ o, s.dir.table 2 = some o ∧ o.ghost = true) ∧ (∃ o, s.dir.table 3 = some o ∧ o.ghost = false) ∧
      ∃ r, CAR_get (fun x => x) s { obj_id := 2 } = some r ∧ r.2 = false ∧
        (∃ o, r.1.dir.table 2 = some o ∧ o.ghost = false) ∧ ∃ o, r.1.dir.table 3 = some o ∧ o.ghost = true := by
    decide +kernel
  have hiff := (promotions_right_iff (fun x => x) 2 false 0 none).2.1 _ s hs { obj_id := 2 } s' hget hres
  exact ⟨s, s', hs, hghost, hin, hget, hout, hiff.2 (.inr hghost)⟩

/-- The ghost of object 2 is hit by a request that is too large for the cache, and object 4 enters T2. -/
theorem not_promotions_right : ¬ ∀ (cache_size : Nat) (reqs : List Request) (s s' : State) (req : Request),
    (∀ r ∈ reqs, 1 ≤ r.obj_size) → runs (CAR_serve fun x => x) (CAR_init cache_size false) reqs = some s → 1 ≤ req.obj_size →
    CAR_get (fun x => x) s req = some (s', false) → s'.toDir.Resident req.obj_id → s.toDir.Promotes s'.toDir req.obj_id := by
  intro hclaim
  obtain ⟨s, hs, hflag, hnew, ⟨s', _⟩, hget, rfl, o, ho, hg⟩ : ∃ s, runs (CAR_serve fun x => x) (CAR_init 2 false)
      [{ obj_id := 1 }, { obj_id := 1 }, { obj_id := 2 }, { obj_id := 3 }, { obj_id := 2, obj_size := 5 }] = some s ∧
        ghostHit s = true ∧ s.dir.table 4 = none ∧ ∃ r, CAR_get (fun x => x) s { obj_id := 4 } = some r ∧ r.2 = false ∧
          ∃ o, r.1.dir.table 4 = some o ∧ o.ghost = false := by decide +kernel
  have hres : s'.toDir.Resident 4 := ⟨o, ho, hg⟩
  have hpromotes := hclaim 2 _ s s' { obj_id := 4 } (by simp) hs (by decide) hget hres
  rcases (get_promotes_iff hget hres).1 hpromotes with hclear | ⟨o', ho', -⟩
  · rw [hflag] at hclear
    cases hclear
  · rw [hnew] at ho'
    cases ho'

end CacheSim.Car
