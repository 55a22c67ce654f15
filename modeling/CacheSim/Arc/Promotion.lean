import CacheSim.Arc.Proofs

/-!
# ARC promotes what hit a ghost list

The time in `vtime_last_req_in_ghost` tells a ghost hit of this request from one that an earlier request
left behind.
-/

namespace CacheSim.Arc

open Lib Directory Option Dir

variable {s s' : State} {req : Request}

structure Trims (s s' : State) : Prop where
  dir : s.toDir.Trims s'.toDir
  ghostHit : s'.ghostHit = s.ghostHit
  vtime : s'.vtime_last_req_in_ghost = s.vtime_last_req_in_ghost

theorem Trims.trans {t : State} (h : Trims s s') (h' : Trims s' t) : Trims s t :=
  ⟨h.dir.trans h'.dir, h'.ghostHit.trans h.ghostHit, h'.vtime.trans h.vtime⟩

theorem onDir_trims {f : Dir → Dir} (h : s.toDir.Trims (f s.toDir)) : Trims s (s.onDir f) := by
  refine ⟨h, ?_, rfl⟩
  have hn : (f s.toDir).n_req = s.n_req := h.n_req
  simp only [State.ghostHit, State.onDir, hn]

variable {k : ListId} {rnd : ℚ → ℚ}

theorem onTail_trims {f : ObjId → Obj → Dir → Dir} (hf : ∀ i o, s.dir.table i = some o → s.toDir.Trims (f i o s.toDir))
    (hs : s.onTail k f = some s') : Trims s s' := by
  obtain ⟨i, -, hs⟩ := bind_eq_some_iff.1 hs
  obtain ⟨o, ho, hs⟩ := bind_eq_some_iff.1 hs
  cases hs
  exact onDir_trims (hf i o ho)

theorem onGhostTail_trims (hs : s.onGhostTail k = some s') : Trims s s' := by
  obtain ⟨i, -, hs⟩ := bind_eq_some_iff.1 hs
  obtain ⟨o, ho, hs⟩ := bind_eq_some_iff.1 hs
  obtain ⟨-, -, hs⟩ := bind_eq_some_iff.1 hs
  cases hs
  exact onDir_trims (discard_trims ho)

theorem replace_trims (hs : ARC_replace rnd s = some s') : Trims s s' := by
  unfold ARC_replace at hs
  split_ifs at hs
  · exact onTail_trims (fun _ _ ho => demote_trims ho) hs
  · exact onTail_trims (fun _ _ ho => demote_trims ho) hs

theorem ghost_then_replace_trims (hs : (s.onGhostTail k).bind (ARC_replace rnd) = some s') : Trims s s' := by
  obtain ⟨t, ht, hs⟩ := bind_eq_some_iff.1 hs
  exact (onGhostTail_trims ht).trans (replace_trims hs)

theorem evict_trims (hs : ARC_evict rnd s req = some s') : Trims s s' := by
  unfold ARC_evict at hs
  split_ifs at hs
  · exact replace_trims hs
  · unfold ARC_evict_miss_on_all_queues at hs
    dsimp only at hs
    split_ifs at hs
    · exact ghost_then_replace_trims hs
    · exact onTail_trims (fun _ _ ho => drop_trims ho) hs
    · obtain ⟨-, -, hs⟩ := bind_eq_some_iff.1 hs
      exact ghost_then_replace_trims hs
    · obtain ⟨-, -, hs⟩ := bind_eq_some_iff.1 hs
      exact replace_trims hs

/-! ## Lookup and insertion -/

def Clock (s : State) : Prop := s.vtime_last_req_in_ghost ≤ s.n_req ∧ 0 ≤ s.n_req

variable {id : ObjId} {obj : Obj}

theorem find_in_L1_ghost_hit (ht : s.dir.table id = some obj) :
    (find_in_L1_ghost rnd s id obj).ghostHit = true ∧
      (find_in_L1_ghost rnd s id obj).vtime_last_req_in_ghost = (find_in_L1_ghost rnd s id obj).n_req := by
  have hn : (s.discard id obj).n_req = s.n_req := (discard_trims ht).n_req
  exact ⟨by simp [State.ghostHit, find_in_L1_ghost, State.onDir, hn], hn.symm⟩

theorem find_in_L2_ghost_hit (ht : s.dir.table id = some obj) :
    (find_in_L2_ghost rnd s id obj).ghostHit = true ∧
      (find_in_L2_ghost rnd s id obj).vtime_last_req_in_ghost = (find_in_L2_ghost rnd s id obj).n_req := by
  have hn : (s.discard id obj).n_req = s.n_req := (discard_trims ht).n_req
  exact ⟨by simp [State.ghostHit, find_in_L2_ghost, State.onDir, hn], hn.symm⟩

theorem find_missed (h : Clock s) (hs : ARC_find rnd (s.onDir Dir.count_req) req = some (s', false)) :
    s'.dir.table req.obj_id = none ∧ (s'.ghostHit = true ↔ s.toDir.Ghost req.obj_id) := by
  unfold ARC_find at hs
  rcases ht : (s.onDir Dir.count_req).dir.table req.obj_id with _ | obj <;> rw [ht] at hs
  · cases hs
    have ht' : s.dir.table req.obj_id = none := ht
    have hne : ¬ s.vtime_last_req_in_ghost = s.n_req + 1 := by
      have hle := h.1
      omega
    exact ⟨ht, by simp [State.ghostHit, State.onDir, hne, Dir.Ghost, ht']⟩
  · have ht' : s.dir.table req.obj_id = some obj := ht
    have hgone : ((s.onDir Dir.count_req).discard req.obj_id obj).dir.table req.obj_id = none := by simp [Dir.discard]
    dsimp only at hs
    split_ifs at hs with hg hl
    · obtain ⟨-, -, hs⟩ := bind_eq_some_iff.1 hs
      cases hs
      exact ⟨hgone, iff_of_true (find_in_L1_ghost_hit ht).1 ⟨obj, ht', hg⟩⟩
    · obtain ⟨-, -, hs⟩ := bind_eq_some_iff.1 hs
      cases hs
      exact ⟨hgone, iff_of_true (find_in_L2_ghost_hit ht).1 ⟨obj, ht', hg⟩⟩
    · cases hs

variable {hit : Bool}

theorem find_clock (h : Clock s) (hs : ARC_find rnd (s.onDir Dir.count_req) req = some (s', hit)) : Clock s' := by
  obtain ⟨hv, hn⟩ := h
  have hcount : Clock (s.onDir Dir.count_req) := by
    show s.vtime_last_req_in_ghost ≤ s.n_req + 1 ∧ 0 ≤ s.n_req + 1
    omega
  unfold ARC_find at hs
  rcases ht : (s.onDir Dir.count_req).dir.table req.obj_id with _ | obj <;> rw [ht] at hs
  · cases hs
    exact hcount
  · have hreq : ((s.onDir Dir.count_req).discard req.obj_id obj).n_req = (s.onDir Dir.count_req).n_req :=
      (discard_trims ht).n_req
    dsimp only at hs
    split_ifs at hs with hg hl
    · obtain ⟨-, -, hs⟩ := bind_eq_some_iff.1 hs
      cases hs
      exact ⟨(find_in_L1_ghost_hit ht).2.le, hcount.2.trans_eq hreq.symm⟩
    · obtain ⟨-, -, hs⟩ := bind_eq_some_iff.1 hs
      cases hs
      exact ⟨(find_in_L2_ghost_hit ht).2.le, hcount.2.trans_eq hreq.symm⟩
    · cases hs
      unfold find_in_data
      split_ifs
      · have hp : ((s.onDir Dir.count_req).promote req.obj_id obj true obj.reference).n_req = (s.onDir Dir.count_req).n_req :=
          (promote_trims ht obj true obj.reference).n_req
        exact ⟨hcount.1.trans_eq hp.symm, hcount.2.trans_eq hp.symm⟩
      · exact hcount

theorem insert_placed (hs : ARC_insert s req = some s') :
    s'.toDir.Placed (if s.ghostHit then .L2_data else .L1_data) req.obj_id := by
  unfold ARC_insert at hs
  split_ifs at hs ⊢
  · cases hs
    exact enter_placed s.toDir req 2 true
  · cases hs
    exact enter_placed s.toDir req 1 true

theorem insert_clock (h : Clock s) (hs : ARC_insert s req = some s') : Clock s' := by
  have hn := fun lru_id => enter_n_req s.toDir req lru_id true
  obtain ⟨hv, hpos⟩ := h
  unfold ARC_insert at hs
  split_ifs at hs
  · cases hs
    show -1 ≤ (s.toDir.enter req 2 true).n_req ∧ 0 ≤ (s.toDir.enter req 2 true).n_req
    rw [hn]
    omega
  · cases hs
    exact ⟨hv, hpos⟩

theorem get_clock (h : Clock s) (hget : ARC_get rnd s req = some (s', hit)) : Clock s' := by
  apply CacheOps.cache_get_base_inv Clock Clock Clock _ _ _ _ h hget
  · intro t t' found ht hf
    split_ifs <;> exact find_clock ht hf
  · intro t t' admitted ht hc
    cases hc
    split_ifs <;> exact ht
  · intro t t' ht _ hev
    have htrims := evict_trims hev
    show t'.vtime_last_req_in_ghost ≤ t'.n_req ∧ 0 ≤ t'.n_req
    rw [htrims.vtime, htrims.dir.n_req]
    exact ht
  · intro t t' ht _ hi
    exact insert_clock ht hi

theorem get_promotes (h : Clock s) (hget : ARC_get rnd s req = some (s', false))
    (hin : s'.toDir.Resident req.obj_id) : s.toDir.Promotes s'.toDir req.obj_id := by
  obtain ⟨s1, s2, admitted, hf, hc, hrest⟩ := CacheOps.cache_get_base_missed hget
  obtain ⟨hout, hghost⟩ := find_missed h hf
  cases hc
  split_ifs at hrest
  · obtain ⟨s3, hw, hi⟩ := hrest
    obtain ⟨htrims, -⟩ := whileLoop_inv (Trims s1) (fun _ _ ht _ hb => ht.trans (evict_trims hb)) _ _ _
      ⟨Dir.Trims.refl _, rfl, rfl⟩ hw
    have hplaced := insert_placed hi
    rw [htrims.ghostHit] at hplaced
    exact hplaced.promotes_iff.2 hghost
  · subst hrest
    obtain ⟨o, ho, -⟩ := hin
    rw [hout] at ho
    cases ho

theorem runs_promote (rnd : ℚ → ℚ) (cache_size : Nat) (md : Bool) (adm : Option (Request → Bool)) {reqs : List Request}
    (hr : runs (ARC_serve rnd) (ARC_init cache_size md adm) reqs = some s) (hget : ARC_get rnd s req = some (s', false))
    (hin : s'.toDir.Resident req.obj_id) : s.toDir.Promotes s'.toDir req.obj_id := by
  have hclock : Clock s := by
    apply runs_inv Clock (fun _ => True) _ reqs _ _ (fun _ _ => trivial) ⟨by simp [ARC_init], le_rfl⟩ hr
    intro t a t' ht _ hs
    obtain ⟨⟨u, hit⟩, hu, rfl⟩ := map_eq_some_iff.1 hs
    exact get_clock ht hu
  exact get_promotes hclock hget hin

end CacheSim.Arc
