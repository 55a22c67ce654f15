import CacheSim.Arc.Model
import CacheSim.Directory.Serving

/-!
# ARC keeps its directory

One spec for each function of `ARC.c`, then what holds after every run.
-/

namespace CacheSim.Arc

open Lib Directory

variable {s s' : State} {req : Request} {id : ObjId} {obj : Obj}

theorem find_in_data_spec (h : DirInv s.toDir) (ht : s.dir.table id = some obj)
    (hg : obj.ghost = false) : Keeps s.toDir (find_in_data s id obj).toDir := by
  by_cases hl : obj.lru_id = 1
  · simp only [find_in_data, hl]
    exact h.promote_keeps ht (Obj.listId_L1_data.2 ⟨hl, hg⟩) true obj.reference
  · have hid : obj.listId = .L2_data := Obj.listId_L2_data.2 ⟨hl, hg⟩
    simp only [find_in_data, hl]
    exact hid ▸ h.move_keeps ht true

theorem ARC_find_spec (rnd : ℚ → ℚ) (req : Request) (h : DirInv s.toDir) : ∃ s' hit, ARC_find rnd s req = some (s', hit) ∧
    Keeps s.toDir s'.toDir ∧ (hit = false → s'.dir.table req.obj_id = none) := by
  cases ht : s.dir.table req.obj_id with
  | none =>
    refine ⟨s, false, by simp [ARC_find, ht], ⟨h, rfl, rfl, le_rfl, fun _ hj => hj⟩, fun _ => ht⟩
  | some obj =>
    have hcharge := h.charge_pos (h.ok _ _ ht)
    have hle := h.charge_le_size ht
    cases hg : obj.ghost with
    | false =>
      exact ⟨_, true, by simp [ARC_find, ht, hg], find_in_data_spec h ht hg, by simp⟩
    | true =>
      have hk := (h.discard_keeps ht hg).1
      have hgone : (s.discard req.obj_id obj).dir.table req.obj_id = none := by simp [Dir.discard]
      by_cases hl : obj.lru_id = 1
      · have hsize : (1 : Int) ≤ s.size .L1_ghost := by
          rw [Obj.listId_L1_ghost.2 ⟨hl, hg⟩] at hle
          omega
        exact ⟨find_in_L1_ghost rnd s req.obj_id obj, false,
          by simp [ARC_find, ht, hg, hl, hsize], hk, fun _ => hgone⟩
      · have hsize : (1 : Int) ≤ s.size .L2_ghost := by
          rw [Obj.listId_L2_ghost.2 ⟨hl, hg⟩] at hle
          omega
        exact ⟨find_in_L2_ghost rnd s req.obj_id obj, false,
          by simp [ARC_find, ht, hg, hl, hsize], hk, fun _ => hgone⟩

theorem ARC_insert_spec (h : DirInv s.toDir) (ht : s.dir.table req.obj_id = none)
    (hsize : 1 ≤ req.obj_size) : ∃ s', ARC_insert s req = some s' ∧ DirInv s'.toDir ∧
      s'.cache_size = s.cache_size ∧
      s'.occupied_byte = s.occupied_byte + req.obj_size + s.obj_md_size := by
  by_cases hg : s.ghostHit = true
  · rw [ARC_insert, if_pos hg]
    exact ⟨_, rfl, h.enter_inv req ht hsize (Or.inr rfl) true, rfl, Dir.enter_occupied_byte _ _ _⟩
  · rw [ARC_insert, if_neg hg]
    exact ⟨_, rfl, h.enter_inv req ht hsize (Or.inl rfl) true, rfl, Dir.enter_occupied_byte _ _ _⟩

/-! ## Eviction: the list that a branch chooses is never empty -/

def Evicts (s s' : State) : Prop := Keeps s.toDir s'.toDir ∧ s'.occupied_byte < s.occupied_byte

variable {k : ListId}

theorem onTail_spec {f : ObjId → Obj → Dir → Dir} (h : DirInv s.toDir)
    (hk : s.size k ≠ 0) (hf : ∀ i o, s.dir.table i = some o → o.listId = k →
      Keeps s.toDir (f i o s.toDir) ∧ (f i o s.toDir).occupied_byte < s.occupied_byte) :
    ∃ s', s.onTail k f = some s' ∧ Evicts s s' := by
  obtain ⟨i, o, ht, ho, hid⟩ := h.tail_some hk
  exact ⟨s.onDir (f i o), by simp [State.onTail, ht, ho], hf i o ho hid⟩

theorem onGhostTail_spec (h : DirInv s.toDir) (hk : s.size k ≠ 0)
    (hghost : ∀ o : Obj, o.listId = k → o.ghost = true) : ∃ s', s.onGhostTail k = some s' ∧
      Keeps s.toDir s'.toDir ∧ s'.occupied_byte = s.occupied_byte := by
  obtain ⟨i, o, ht, ho, hid⟩ := h.tail_some hk
  have hg := hghost o hid
  exact ⟨s.onDir (·.discard i o), by simp [State.onGhostTail, ht, ho, hg],
    h.discard_keeps ho hg⟩

theorem ARC_replace_spec (rnd : ℚ → ℚ) (h : DirInv s.toDir) (hocc : 0 < s.occupied_byte) :
    ∃ s', ARC_replace rnd s = some s' ∧ Evicts s s' := by
  have hsum := h.occ
  by_cases hL1 : replacesL1 rnd s = true
  · have hne : s.size .L1_data ≠ 0 := by
      simp only [replacesL1, decide_eq_true_eq] at hL1
      rcases hL1 with ⟨hpos, -⟩ | hzero <;> omega
    rw [ARC_replace, if_pos hL1]
    exact onTail_spec h hne fun i o ho hid => h.demote_keeps ho (Obj.listId_L1_data.1 hid).2
  · have hne : s.size .L2_data ≠ 0 := by
      simp only [replacesL1, decide_eq_true_eq, not_or] at hL1
      exact hL1.2
    rw [ARC_replace, if_neg hL1]
    exact onTail_spec h hne fun i o ho hid => h.demote_keeps ho (Obj.listId_L2_data.1 hid).2

theorem ghost_then_replace_spec (rnd : ℚ → ℚ) (h : DirInv s.toDir) (hocc : 0 < s.occupied_byte)
    (hk : s.size k ≠ 0) (hghost : ∀ o : Obj, o.listId = k → o.ghost = true) :
    ∃ s', (s.onGhostTail k).bind (ARC_replace rnd) = some s' ∧ Evicts s s' := by
  obtain ⟨s1, h1, hk1, ho1⟩ := onGhostTail_spec h hk hghost
  obtain ⟨s2, h2, hk2, ho2⟩ := ARC_replace_spec rnd hk1.inv (by omega)
  exact ⟨s2, by simp [h1, h2], hk1.trans hk2, by omega⟩

theorem ARC_evict_miss_on_all_queues_spec (rnd : ℚ → ℚ) (h : DirInv s.toDir) (hocc : 0 < s.occupied_byte)
    (hsize : 1 ≤ req.obj_size) (hfits : req.obj_size + s.obj_md_size ≤ s.cache_size) :
    ∃ s', ARC_evict_miss_on_all_queues rnd s req = some s' ∧ Evicts s s' := by
  have hmd := h.md
  rw [ARC_evict_miss_on_all_queues]
  by_cases hA : s.size .L1_data + s.size .L1_ghost + (req.obj_size + s.obj_md_size) > s.cache_size
  · rw [if_pos hA]
    by_cases hB1 : s.size .L1_ghost > 0
    · rw [if_pos hB1]
      exact ghost_then_replace_spec rnd h hocc (by omega) fun o ho => (Obj.listId_L1_ghost.1 ho).2
    · -- B1 is empty and the object fits an empty cache, so T1 holds something
      rw [if_neg hB1]
      exact onTail_spec h (by omega) fun i o ho hid => h.drop_keeps ho (Obj.listId_L1_data.1 hid).2
  · have hlt : s.size .L1_data + s.size .L1_ghost < s.cache_size := by omega
    simp only [hlt, guard, Option.bind_eq_bind]
    split_ifs with hB2
    · exact ghost_then_replace_spec rnd h hocc (by omega) fun o ho => (Obj.listId_L2_ghost.1 ho).2
    · exact ARC_replace_spec rnd h hocc

theorem ARC_evict_spec (rnd : ℚ → ℚ) (h : DirInv s.toDir) (hocc : 0 < s.occupied_byte)
    (hsize : 1 ≤ req.obj_size) (hfits : req.obj_size + s.obj_md_size ≤ s.cache_size) :
    ∃ s', ARC_evict rnd s req = some s' ∧ Evicts s s' := by
  rw [ARC_evict]
  split_ifs
  · exact ARC_replace_spec rnd h hocc
  · exact ARC_evict_miss_on_all_queues_spec rnd h hocc hsize hfits

/-! ## Whole calls -/

theorem ARC_init_fits (cache_size : Nat) (md : Bool) (adm : Option (Request → Bool)) :
    DirFits (ARC_init cache_size md adm).toDir where
  inv := {
    wf := by
      intro k
      simp [ARC_init]
    ok := by simp [ARC_init]
    size := by simp [ARC_init, Part.total]
    md := by cases md <;> simp [ARC_init]
    occ := rfl
    n_obj := rfl }
  fits := by simp [ARC_init]

theorem ARC_policy (rnd : ℚ → ℚ) (hsize : 1 ≤ req.obj_size) : Policy (ARC_ops rnd) State.toDir req where
  occupied _ := rfl
  md _ := rfl
  cache_size _ := rfl
  can_insert _ := rfl
  find s hs := by
    have hcount := hs.count_req_keeps
    obtain ⟨s', hit, hf, hk, hmiss⟩ := ARC_find_spec rnd req
      (s := s.onDir Dir.count_req) hcount.inv
    exact ⟨s', hit, hf, hcount.trans hk, hmiss⟩
  evict _ hs hpos hfits := ARC_evict_spec rnd hs.inv hpos hsize hfits
  insert _ hs habs := ARC_insert_spec hs habs hsize

theorem ARC_get_spec (rnd : ℚ → ℚ) (h : DirFits s.toDir) (hsize : 1 ≤ req.obj_size) :
    ∃ s' hit, ARC_get rnd s req = some (s', hit) ∧ DirFits s'.toDir ∧
      s'.cache_size = s.cache_size :=
  (ARC_policy rnd hsize).get_spec h

def ARC_serve (rnd : ℚ → ℚ) (s : State) (req : Request) : Option State :=
  (ARC_get rnd s req).map Prod.fst

/-- After every run of gets the directory is consistent and fits the cache; that the run returns
says that no helper met an empty list. -/
theorem ARC_directory (rnd : ℚ → ℚ) (cache_size : Nat) (md : Bool) (adm : Option (Request → Bool))
    (reqs : List Request) (hsizes : ∀ req ∈ reqs, 1 ≤ req.obj_size) :
    ∃ s, runs (ARC_serve rnd) (ARC_init cache_size md adm) reqs = some s ∧
      s.toDir.Consistent ∧ s.cache_size = cache_size ∧ s.occupied_byte ≤ cache_size := by
  let I : State → Prop := fun s => DirFits s.toDir ∧ s.cache_size = cache_size
  have hstep : ∀ s req, I s → 1 ≤ req.obj_size → ∃ s', ARC_serve rnd s req = some s' ∧ I s' := by
    rintro s req ⟨hs, hcs⟩ hsize
    obtain ⟨s', hit, hget, hfits, hcs'⟩ := ARC_get_spec rnd hs hsize
    exact ⟨s', by simp [ARC_serve, hget], hfits, hcs'.trans hcs⟩
  obtain ⟨s, hrun, hfits, hcs⟩ := runs_total I (fun req => 1 ≤ req.obj_size) hstep reqs _ hsizes
    ⟨ARC_init_fits cache_size md adm, rfl⟩
  exact ⟨s, hrun, hfits.inv.consistent, hcs, hcs ▸ hfits.fits⟩

theorem ARC_directory_of_four_gets :
    ∃ s, runs (ARC_serve fun x => x) (ARC_init 2 false none)
        [{ obj_id := 1 }, { obj_id := 1 }, { obj_id := 2 }, { obj_id := 3 }] = some s ∧
      s.toDir.Consistent ∧ s.cache_size = (2 : Nat) ∧ s.occupied_byte ≤ (2 : Nat) :=
  ARC_directory (fun x => x) 2 false none _ (by decide)

end CacheSim.Arc

/-!
## The victim that ARC announces

`ARC_to_evict` repeats the decisions of `ARC_evict`, which drops a ghost first. No decision about the
victim looks at the ghosts after that.
-/

namespace CacheSim.Arc

open Lib Directory

variable {s s' : State} {req : Request}

theorem onTail_announced {k : ListId} {f : ObjId → Obj → Dir → Dir} (h : DirInv s.toDir) (hk : s.size k ≠ 0)
    (hf : ∀ i o, s.dir.table i = some o → o.listId = k → s.LosesObj (f i o s.toDir) i) :
    s.Announces (s.tail k) ((s.onTail k f).map State.toDir) := by
  obtain ⟨i, o, ht, ho, hid⟩ := h.tail_some hk
  exact ⟨i, f i o s.toDir, ht, by simp [State.onTail, ht, ho, State.onDir], hf i o ho hid⟩

theorem ARC_to_replace_announces (rnd : ℚ → ℚ) (h : DirInv s.toDir) (hocc : 0 < s.occupied_byte) :
    s.Announces (ARC_to_replace rnd s) ((ARC_replace rnd s).map State.toDir) := by
  have hsum := h.occ
  by_cases hL1 : replacesL1 rnd s = true
  · have hne : s.size .L1_data ≠ 0 := by
      simp only [replacesL1, decide_eq_true_eq] at hL1
      rcases hL1 with ⟨hpos, -⟩ | hzero <;> omega
    rw [ARC_to_replace, ARC_replace, if_pos hL1, if_pos hL1]
    exact onTail_announced h hne fun i o ho hid => h.demote_loses ho (Obj.listId_L1_data.1 hid).2
  · have hne : s.size .L2_data ≠ 0 := by
      simp only [replacesL1, decide_eq_true_eq, not_or] at hL1
      exact hL1.2
    rw [ARC_to_replace, ARC_replace, if_neg hL1, if_neg hL1]
    exact onTail_announced h hne fun i o ho hid => h.demote_loses ho (Obj.listId_L2_data.1 hid).2

theorem ARC_to_replace_discard (rnd : ℚ → ℚ) {i : ObjId} {o : Obj} (hg : o.ghost = true) :
    ARC_to_replace rnd (s.onDir (·.discard i o)) = ARC_to_replace rnd s := by
  have hsame : ∀ k, o.listId ≠ k → (s.discard i o).size k = s.size k ∧ (s.discard i o).dir.list k = s.dir.list k := by
    intro k hk
    simp [Dir.discard, Dir.remove_obj_from_list, Function.update_of_ne (Ne.symm hk)]
  have h1 := hsame .L1_data fun hid => by simp [(Obj.listId_L1_data.1 hid).2] at hg
  have h2 := hsame .L2_data fun hid => by simp [(Obj.listId_L2_data.1 hid).2] at hg
  have hside : replacesL1 rnd (s.onDir (·.discard i o)) = replacesL1 rnd s := by
    apply decide_eq_decide.2
    simp only [State.onDir, h1, h2]
  rw [ARC_to_replace, ARC_to_replace, hside]
  simp only [State.onDir, Dir.tail, h1, h2]

theorem ghost_then_replace_announced (rnd : ℚ → ℚ) {k : ListId} (h : DirInv s.toDir) (hocc : 0 < s.occupied_byte)
    (hk : s.size k ≠ 0) (hghost : ∀ o : Obj, o.listId = k → o.ghost = true) :
    s.Announces (ARC_to_replace rnd s) (((s.onGhostTail k).bind (ARC_replace rnd)).map State.toDir) := by
  obtain ⟨i, o, ht, ho, hid⟩ := h.tail_some hk
  have hg := hghost o hid
  have hkeeps := h.discard_keeps ho hg
  have hstep : s.onGhostTail k = some (s.onDir (·.discard i o)) := by simp [State.onGhostTail, ht, ho, hg]
  obtain ⟨v, d', hv, hd', hloses⟩ := ARC_to_replace_announces (s := s.onDir (·.discard i o)) rnd hkeeps.1.inv
    (hocc.trans_eq hkeeps.2.symm)
  rw [ARC_to_replace_discard rnd hg] at hv
  refine ⟨v, d', hv, ?_, hloses.same_trans (h.discard_resident ho hg)⟩
  rw [hstep, Option.bind_some, hd']

theorem ARC_to_evict_miss_announces (rnd : ℚ → ℚ) (h : DirInv s.toDir) (hocc : 0 < s.occupied_byte)
    (hsize : 1 ≤ req.obj_size) (hfits : req.obj_size + s.obj_md_size ≤ s.cache_size) :
    s.Announces (ARC_to_evict_miss_on_all_queues rnd s req) ((ARC_evict_miss_on_all_queues rnd s req).map State.toDir) := by
  have hmd := h.md
  rw [ARC_to_evict_miss_on_all_queues, ARC_evict_miss_on_all_queues]
  by_cases hA : s.size .L1_data + s.size .L1_ghost + (req.obj_size + s.obj_md_size) > s.cache_size
  · rw [if_pos hA, if_pos hA]
    by_cases hB1 : s.size .L1_ghost > 0
    · rw [if_pos hB1, if_pos hB1]
      exact ghost_then_replace_announced rnd h hocc (by omega) fun o ho => (Obj.listId_L1_ghost.1 ho).2
    · -- B1 is empty and the object fits an empty cache, so T1 holds something
      rw [if_neg hB1, if_neg hB1]
      exact onTail_announced h (by omega) fun i o ho hid => h.drop_loses ho (Obj.listId_L1_data.1 hid).2
  · have hlt : s.size .L1_data + s.size .L1_ghost < s.cache_size := by omega
    simp only [hlt, Option.bind_eq_bind]
    split_ifs with hB2
    · exact ghost_then_replace_announced rnd h hocc (by omega) fun o ho => (Obj.listId_L2_ghost.1 ho).2
    · exact ARC_to_replace_announces rnd h hocc

theorem ARC_to_evict_announces (rnd : ℚ → ℚ) (h : DirInv s.toDir) (hocc : 0 < s.occupied_byte)
    (hsize : 1 ≤ req.obj_size) (hfits : req.obj_size + s.obj_md_size ≤ s.cache_size) :
    s.Announces (ARC_to_evict rnd s req) ((ARC_evict rnd s req).map State.toDir) := by
  rw [ARC_to_evict, ARC_evict]
  split_ifs
  · exact ARC_to_replace_announces rnd h hocc
  · exact ARC_to_evict_miss_announces rnd h hocc hsize hfits

/-- In every state between gets and in the middle of one, if the insertion of an object needs an eviction,
the eviction takes the object that `ARC_to_evict` returned. -/
theorem ARC_to_evict_agrees (rnd : ℚ → ℚ) (cache_size : Nat) (md : Bool) (adm : Option (Request → Bool))
    (hr : Reach (serve_piece (ARC_ops rnd) State.toDir) (fun s a => a.Ok s.toDir) (ARC_init cache_size md adm) s)
    (hneeds : NeedsEviction s.toDir req) :
    s.Announces (ARC_to_evict rnd s req) ((ARC_evict rnd s req).map State.toDir) := by
  have hfits : DirFits s.toDir := Policy.reach_fits (fun _ hsize => ARC_policy rnd hsize) (ARC_init_fits cache_size md adm) hr
  obtain ⟨hroom, hocc⟩ := hneeds.room
  exact ARC_to_evict_announces rnd hfits.inv hocc hneeds.1 hroom

theorem ARC_to_evict_agrees_of_two : ∃ s, Reach (serve_piece (ARC_ops fun x => x) State.toDir) (fun s a => a.Ok s.toDir)
      (ARC_init 2 false none) s ∧
    s.Announces (ARC_to_evict (fun x => x) s { obj_id := 3 }) ((ARC_evict (fun x => x) s { obj_id := 3 }).map State.toDir) := by
  obtain ⟨s, hs, hneeds⟩ : ∃ s, runs (fun s (a : Piece) => if a.Ok s.toDir then serve_piece (ARC_ops fun x => x)
    State.toDir s a else none)
      (ARC_init 2 false none) [.get { obj_id := 1 }, .get { obj_id := 1 }, .get { obj_id := 2 },
        .find { obj_id := 3 }] = some s ∧ NeedsEviction s.toDir { obj_id := 3 } := by
    decide +kernel
  have hreach := Reach.of_checked hs
  exact ⟨s, hreach, ARC_to_evict_agrees (fun x => x) 2 false none hreach hneeds⟩

end CacheSim.Arc
