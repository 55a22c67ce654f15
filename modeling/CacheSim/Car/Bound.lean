import CacheSim.Car.Promotion
import CacheSim.Directory.Units

/-!
# The size of CAR's directory

The test that trims B2 asks for `T1 + B1 > c` after a test for `T1 + B1 >= c`, and is never met.
-/

namespace CacheSim.Car

open Lib Directory Option Dir

variable {rnd : ℚ → ℚ} {c : Int} {s s' : State} {req : Request}

/-! ## What an eviction drops -/

def turns_L1 (rnd : ℚ → ℚ) (s : State) : Prop :=
  use_L1 rnd s = true ∧ ∃ i o, s.head .L1_data = some i ∧ s.dir.table i = some o ∧ o.reference = true

structure Drops (rnd : ℚ → ℚ) (s : State) : Prop where
  no_both : (s.curr_obj_in_L1_ghost && s.curr_obj_in_L2_ghost) = false
  full : s.L1 = s.cache_size
  stays : ¬ turns_L1 rnd s

def MakesRoom (rnd : ℚ → ℚ) (s : State) (req : Request) : Prop :=
  s.dir.table req.obj_id ≠ none ∨ s.cache_can_insert_default req = false ∨ s.occupied_byte < s.cache_size ∨
    s.entries < 2 * s.cache_size ∨ Drops rnd s

structure Same (s s' : State) : Prop where
  curr_obj_in_L1_ghost : s'.curr_obj_in_L1_ghost = s.curr_obj_in_L1_ghost
  curr_obj_in_L2_ghost : s'.curr_obj_in_L2_ghost = s.curr_obj_in_L2_ghost
  p : s'.p = s.p

variable {t : State}

theorem Same.trans (h : Same s s') (h' : Same s' t) : Same s t :=
  ⟨h'.1.trans h.1, h'.2.trans h.2, h'.3.trans h.3⟩

theorem Same.ghostHit_eq (h : Same s s') : ghostHit s' = ghostHit s := by
  unfold ghostHit
  rw [h.curr_obj_in_L1_ghost, h.curr_obj_in_L2_ghost]

theorem onDir_same (s : State) (f : Dir → Dir) : Same s (s.onDir f) := by
  exact ⟨rfl, rfl, rfl⟩

inductive Turn (rnd : ℚ → ℚ) (s s' : State) : Bool → Prop
  | victim : ¬ turns_L1 rnd s → s.Takes 0 0 1 s'.toDir → Turn rnd s s' true
  | from_L1 : turns_L1 rnd s → s.Takes 1 (-1) 0 s'.toDir → Turn rnd s s' false
  | in_L2 : ¬ turns_L1 rnd s → s.Takes 0 0 0 s'.toDir → ¬ turns_L1 rnd s' → Turn rnd s s' false

variable {i : ObjId} {o : Obj}

theorem not_turns_of_reference (hi : s.head .L1_data = some i) (ho : s.dir.table i = some o)
    (hr : o.reference = false) : ¬ turns_L1 rnd s := by
  rintro ⟨-, i', o', hi', ho', hr'⟩
  cases hi.symm.trans hi'
  cases ho.symm.trans ho'
  rw [hr] at hr'
  cases hr'

theorem turn_in_L2 (h : Units s.toDir) (hL1 : use_L1 rnd s = false) (hi : s.dir.table i = some o)
    (hid : o.listId = .L2_data) : Turn rnd s (CAR_move_to_tail_L2_data s i o) false := by
  have hg := (Obj.listId_L2_data.1 hid).2
  have hmem : i ∈ s.dir.list .L2_data := hid ▸ h.inv.wf.mem_of_table hi
  have hperm : (push false i ((s.dir.list o.listId).erase i)).Perm (s.dir.list o.listId) :=
    (push_perm _ _ _).trans (List.perm_cons_erase (hid.symm ▸ hmem)).symm
  have heq : (CAR_move_to_tail_L2_data s i o).toDir = (s.set_list o.listId
      (push false i ((s.dir.list o.listId).erase i))).set_obj i { o with reference := false } := by
    simp only [CAR_move_to_tail_L2_data, State.onDir, Dir.move, hid, hg]
  have htakes := h.reorder_takes hi false hperm
  rw [← heq] at htakes
  refine .in_L2 (fun ht => ?_) htakes (fun ht => ?_)
  · have hyes := ht.1
    rw [hL1] at hyes
    cases hyes
  · -- T2 keeps its pages, so that the test comes out as before
    have hne := List.ne_nil_of_mem hmem
    have hsame : use_L1 rnd (CAR_move_to_tail_L2_data s i o) = use_L1 rnd s := by
      simp [use_L1, CAR_move_to_tail_L2_data, State.onDir, Dir.move, push, hne]
    have hyes := ht.1
    rw [hsame, hL1] at hyes
    cases hyes

theorem replace_round_turn {found : Bool} (h : Units s.toDir) (hs : CAR_replace_round rnd s = some (s', found)) :
    Turn rnd s s' found ∧ Same s s' := by
  have hrecord : ∀ k i o, s.head k = some i → s.dir.table i = some o → o.listId = k := by
    intro k i o hi ho
    obtain ⟨o', ho', hid⟩ := h.inv.wf.table_of_mem (List.mem_of_head? hi)
    cases ho.symm.trans ho'
    exact hid
  unfold CAR_replace_round at hs
  split_ifs at hs with hL1
  all_goals
    obtain ⟨i, hi, hs⟩ := bind_eq_some_iff.1 hs
    obtain ⟨o, ho, hs⟩ := bind_eq_some_iff.1 hs
    have hid := hrecord _ i o hi ho
    split_ifs at hs with hr
    all_goals cases hs
  · rw [Bool.not_eq_true'] at hr
    have hg := (Obj.listId_L1_data.1 hid).2
    exact ⟨.victim (not_turns_of_reference hi ho hr) (h.demote_takes ho hg), onDir_same _ _⟩
  · rw [Bool.not_eq_true', Bool.not_eq_false] at hr
    rw [CAR_L1_move_to_tail_L2_data, Obj.ghost_eta (Obj.listId_L1_data.1 hid).2]
    exact ⟨.from_L1 ⟨hL1, i, o, hi, ho, hr⟩ (h.promote_takes ho hid false false), onDir_same _ _⟩
  · exact ⟨.victim (fun ht => hL1 ht.1) (h.demote_takes ho (Obj.listId_L2_data.1 hid).2), onDir_same _ _⟩
  · exact ⟨turn_in_L2 h (by simpa using hL1) ho hid, onDir_same _ _⟩

theorem replace_takes (h : Units s.toDir) (hs : CAR_replace rnd s = some s') :
    Same s s' ∧ ∃ n, 0 ≤ n ∧ (n = 0 ↔ ¬ turns_L1 rnd s) ∧ s.Takes n (-n) 1 s'.toDir := by
  let I : State × Bool → Prop := fun w => Same s w.1 ∧ (w = (s, false) ∨
    ∃ n, 0 ≤ n ∧ (n = 0 ↔ ¬ turns_L1 rnd s) ∧ s.Takes n (-n) (if w.2 then 1 else 0) w.1.toDir ∧
      (w.2 = false → n = 0 → ¬ turns_L1 rnd w.1))
  obtain ⟨⟨t, found⟩, hloop, hs⟩ := bind_eq_some_iff.1 hs
  cases hs
  have hbody : ∀ w w', I w → (!w.2) = true → CAR_replace_round rnd w.1 = some w' → I w' := by
    rintro ⟨t, found⟩ ⟨t', found'⟩ ⟨hsame, hw⟩ hf hround
    obtain rfl : found = false := by simpa using hf
    rcases hw with hw | ⟨n, hn, hturns, htakes, hstays⟩
    · cases hw
      obtain ⟨hturn, hsame'⟩ := replace_round_turn h hround
      refine ⟨hsame', .inr ?_⟩
      cases hturn with
      | victim hno ht => exact ⟨0, le_rfl, by simp [hno], by simpa using ht, by simp⟩
      | from_L1 hyes ht => exact ⟨1, by omega, by simp [hyes], by simpa using ht, by simp⟩
      | in_L2 hno ht hno' => exact ⟨0, le_rfl, by simp [hno], by simpa using ht, fun _ _ => hno'⟩
    · obtain ⟨hturn, hsame'⟩ := replace_round_turn htakes.units hround
      refine ⟨hsame.trans hsame', .inr ?_⟩
      cases hturn with
      | victim hno ht => exact ⟨n, hn, hturns, by simpa using htakes.trans ht, by simp⟩
      | from_L1 hyes ht =>
        have hpos : n ≠ 0 := fun h0 => hstays rfl h0 hyes
        refine ⟨n + 1, by omega, ?_, by simpa [Int.add_comm] using htakes.trans ht, fun _ h1 => absurd h1 (by omega)⟩
        rw [← hturns]
        omega
      | in_L2 hno ht hno' => exact ⟨n, hn, hturns, by simpa using htakes.trans ht, fun _ _ => hno'⟩
  obtain ⟨⟨hsame, hw⟩, hfound⟩ := whileLoop_inv I hbody _ _ _ ⟨⟨rfl, rfl, rfl⟩, .inl rfl⟩ hloop
  obtain rfl : found = true := by simpa using hfound
  rcases hw with hw | ⟨n, hn, hturns, htakes, -⟩
  · cases hw
  · exact ⟨hsame, n, hn, hturns, by simpa using htakes⟩

/-! ## One get -/

structure Bounds (c : Int) (d : Dir) : Prop where
  units : Units d
  md : d.obj_md_size = 0
  cache_size : d.cache_size = c
  fits : d.occupied_byte ≤ c
  full : d.occupied_byte < c → d.size .L1_ghost = 0 ∧ d.size .L2_ghost = 0
  L1_le : d.L1 ≤ c

structure Ready (c : Int) (s : State) : Prop where
  units : Units s.toDir
  md : s.obj_md_size = 0
  cache_size : s.cache_size = c
  fits : s.occupied_byte + 1 ≤ c
  full : s.occupied_byte + 1 < c → s.size .L1_ghost = 0 ∧ s.size .L2_ghost = 0
  L1_le : s.L1 + (if ghostHit s then 0 else 1) ≤ c

theorem Bounds.ready_of_takes {n m : Int} (h : Bounds c s.toDir) (hfull : s.occupied_byte = c) (ht : s.Takes (n + m) (-n) 1 s'.toDir)
    (hflags : ghostHit s' = ghostHit s) (hL1 : s.L1 - (n + m) + (if ghostHit s then 0 else 1) ≤ c) : Ready c s' := by
  have hocc := ht.occ
  refine ⟨ht.units, ht.md.trans h.md, ht.cache_size.trans h.cache_size, by omega, by omega, ?_⟩
  rw [hflags, ht.L1_eq]
  exact hL1

theorem evict_takes (h : Bounds c s.toDir) (hpos : 1 ≤ c) (hfull : s.occupied_byte = c) (hs : CAR_evict rnd s req = some s') :
    Ready c s' ∧ ∃ n m, (m = 1 ∧ Drops rnd s ∨ m = 0 ∧ ¬ Drops rnd s) ∧ s.Takes (n + m) (-n) 1 s'.toDir := by
  have hcs := h.cache_size
  have hL1 := h.L1_le
  have hocc := h.units.inv.occ
  have hne : ¬ s.size .L1_data + s.size .L2_data = 0 := by omega
  simp only [CAR_evict, if_neg hne] at hs
  obtain ⟨t, ht, hs⟩ := bind_eq_some_iff.1 hs
  obtain ⟨hsame, n, hn, hturns, htakes⟩ := replace_takes h.units ht
  have htL1 : t.size .L1_data + t.size .L1_ghost = s.L1 - n := htakes.L1_eq
  have htcs := htakes.cache_size
  have htakes0 : s.Takes (n + 0) (-n) 1 t.toDir := by rwa [Int.add_zero]
  rw [hsame.curr_obj_in_L1_ghost, hsame.curr_obj_in_L2_ghost] at hs
  split_ifs at hs with hboth hlarge htrim
  · -- T1 and B1 are full: the oldest of B1 goes
    obtain ⟨i, htail, hs⟩ := bind_eq_some_iff.1 hs
    obtain ⟨o, ho, hs⟩ := bind_eq_some_iff.1 hs
    cases hs
    obtain ⟨o', ho', hid⟩ := htakes.units.inv.wf.table_of_mem (List.mem_of_getLast? htail)
    cases ho.symm.trans ho'
    have hu := htakes.trans (htakes.units.discard_takes ho (Obj.listId_L1_ghost.1 hid).2)
    rw [hid] at hu
    simp only [reduceCtorEq, if_false, Int.add_zero] at hu
    have hflags := (hsame.trans (onDir_same t (·.discard i o))).ghostHit_eq
    refine ⟨h.ready_of_takes hfull hu hflags ?_, n, 1, .inl ⟨rfl, ⟨?_, by omega, hturns.1 (by omega)⟩⟩, hu⟩
    · split_ifs <;> omega
    · rw [Bool.and_eq_false_iff]
      simpa using hboth
  · omega
  · cases hs
    refine ⟨h.ready_of_takes hfull htakes0 hsame.ghostHit_eq ?_, n, 0, .inr ⟨rfl, fun hdrops => ?_⟩, htakes0⟩
    · split_ifs <;> omega
    · have hn0 := hturns.2 hdrops.stays
      have hall := hdrops.full
      omega
  · cases hs
    have hflags : s.curr_obj_in_L1_ghost = true ∧ s.curr_obj_in_L2_ghost = true := by simpa using hboth
    refine ⟨h.ready_of_takes hfull htakes0 hsame.ghostHit_eq ?_, n, 0, .inr ⟨rfl, fun hdrops => ?_⟩, htakes0⟩
    · simp only [ghostHit, hflags, Bool.or_self, if_true]
      omega
    · have hno := hdrops.no_both
      simp [hflags] at hno

theorem enter_bounds {lru_id : Nat} (h : Ready c s) (hunit : req.obj_size = 1) (hout : s.dir.table req.obj_id = none)
    (hl : lru_id = 1 ∨ lru_id = 2) (hL1 : s.L1 + (if lru_id = 1 then 1 else 0) ≤ c) :
    Bounds c (s.enter req lru_id false) ∧ (s.enter req lru_id false).L1 + (s.enter req lru_id false).L2 = s.L1 + s.L2 + 1 := by
  have ht := h.units.enter_takes hout hunit h.md hl false
  obtain ⟨hunits, hsize⟩ := h.units.enter hout hunit h.md hl false
  have hL1' := ht.L1_eq
  have hL2' := ht.L2_eq
  have hocc := ht.occ
  have hfits := h.fits
  have hfull := h.full
  refine ⟨⟨hunits, ht.md.trans h.md, ht.cache_size.trans h.cache_size, by omega, fun hlt => ?_, ?_⟩, ?_⟩
  · -- the object is resident, so the ghosts are as before
    rw [hsize, hsize]
    rcases hl with rfl | rfl <;> simp [Obj.listId] <;> omega
  · rcases hl with rfl | rfl <;> simp at hL1 hL1' <;> omega
  · rcases hl with rfl | rfl <;> simp at hL1' hL2' <;> omega

theorem insert_bounds (h : Ready c s) (hunit : req.obj_size = 1) (hout : s.dir.table req.obj_id = none)
    (hs : CAR_insert s req = some s') : Bounds c s'.toDir ∧ s'.L1 + s'.L2 = s.L1 + s.L2 + 1 := by
  have hL1 := h.L1_le
  unfold ghostHit at hL1
  unfold CAR_insert at hs
  split_ifs at hs hL1 with hflags
  · cases hs
    exact enter_bounds h hunit hout (.inr rfl) hL1
  · cases hs
    exact enter_bounds h hunit hout (.inl rfl) hL1

theorem Bounds.count_req (h : Bounds c s.toDir) : Bounds c s.count_req :=
  { h with units := ⟨h.units.inv.count_req_keeps.inv, h.units.unit⟩ }

theorem discard_bounds {d : Dir} (h : Bounds c d) (hi : d.dir.table i = some o) (hg : o.ghost = true) :
    Bounds c (d.discard i o) ∧ (d.discard i o).L1 + (d.discard i o).L2 = d.L1 + d.L2 - 1 := by
  have ht := h.units.discard_takes hi hg
  have hid : o.listId = .L1_ghost ∨ o.listId = .L2_ghost := by
    by_cases hl : o.lru_id = 1 <;> simp [Obj.listId, hl, hg]
  have hle := h.units.inv.charge_le_size hi
  rw [h.units.unit i o hi] at hle
  have hL1 := ht.L1_eq
  have hL2 := ht.L2_eq
  have hocc := ht.occ
  have hL1_le := h.L1_le
  have hfits := h.fits
  have hfull := h.full
  refine ⟨⟨ht.units, ht.md.trans h.md, ht.cache_size.trans h.cache_size, by omega, fun hlt => ?_, ?_⟩, ?_⟩
  · -- only a full cache has ghosts
    rcases hid with hid | hid <;> rw [hid] at hle <;> omega
  · rcases hid with hid | hid <;> simp [hid] at hL1 <;> omega
  · rcases hid with hid | hid <;> simp [hid] at hL1 hL2 <;> omega

section

variable (h : Bounds c s.toDir)
include h

theorem find_takes (hs : CAR_find rnd (s.onDir Dir.count_req) req = some (s', false)) :
    Bounds c s'.toDir ∧ (s.dir.table req.obj_id = none ∧ s' = s.onDir Dir.count_req ∨
      s.dir.table req.obj_id ≠ none ∧ s'.L1 + s'.L2 = s.L1 + s.L2 - 1) := by
  unfold CAR_find at hs
  rcases ht : (s.onDir Dir.count_req).dir.table req.obj_id with _ | obj <;> rw [ht] at hs
  · cases hs
    exact ⟨h.count_req, .inl ⟨ht, rfl⟩⟩
  · have hin : s.dir.table req.obj_id ≠ none := by
      rw [show s.dir.table req.obj_id = some obj from ht]
      simp
    dsimp only at hs
    split_ifs at hs with hg hl
    · obtain ⟨-, -, hs⟩ := bind_eq_some_iff.1 hs
      cases hs
      obtain ⟨hbounds, hless⟩ := discard_bounds h.count_req ht hg
      exact ⟨hbounds, .inr ⟨hin, hless⟩⟩
    · obtain ⟨-, -, hs⟩ := bind_eq_some_iff.1 hs
      cases hs
      obtain ⟨hbounds, hless⟩ := discard_bounds h.count_req ht hg
      exact ⟨hbounds, .inr ⟨hin, hless⟩⟩
    · cases hs

theorem find_found_bounds (hs : CAR_find rnd (s.onDir Dir.count_req) req = some (s', true)) :
    Bounds c s'.toDir ∧ s.dir.table req.obj_id ≠ none ∧ s'.L1 + s'.L2 = s.L1 + s.L2 := by
  unfold CAR_find at hs
  rcases ht : (s.onDir Dir.count_req).dir.table req.obj_id with _ | obj <;> rw [ht] at hs
  · cases hs
  · have hin : s.dir.table req.obj_id ≠ none := by
      rw [show s.dir.table req.obj_id = some obj from ht]
      simp
    dsimp only at hs
    split_ifs at hs with hg hl
    · obtain ⟨-, -, hs⟩ := bind_eq_some_iff.1 hs
      cases hs
    · obtain ⟨-, -, hs⟩ := bind_eq_some_iff.1 hs
      cases hs
    · cases hs
      have hlist : ∀ (d : Dir) k, d.set_list k (d.dir.list k) = d := by simp [Dir.set_list]
      have hk := h.count_req.units.reorder_takes ht true (List.Perm.refl _)
      rw [hlist] at hk
      exact ⟨{ h with units := hk.units }, hin, rfl⟩

theorem loop_evicts_once {n : Nat} (hunit : req.obj_size = 1) (hpos : 1 ≤ c)
    (hs : whileLoop ((CAR_ops rnd).full_for req) ((CAR_ops rnd).evict · req) n s = some s') :
    s' = s ∧ s.occupied_byte < c ∨ s.occupied_byte = c ∧ CAR_evict rnd s req = some s' := by
  have hmd := h.md
  have hcs := h.cache_size
  have hfits := h.fits
  have hfull : ∀ t : State, t.cache_size = c → t.obj_md_size = 0 →
      ((CAR_ops rnd).full_for req t = true ↔ c < t.occupied_byte + 1) := by
    intro t htcs htmd
    rw [CacheOps.full_for_iff]
    dsimp only [CAR_ops]
    rw [hunit, htcs, htmd, Int.add_zero]
  have hloop := whileLoop_inv (fun t => t = s ∨ s.occupied_byte = c ∧ CAR_evict rnd s req = some t) (fun t t' ht hcond hev => by
    rcases ht with rfl | ⟨hocc, ht⟩
    · rw [hfull t hcs hmd] at hcond
      exact .inr ⟨by omega, hev⟩
    · have hready := (evict_takes h hpos hocc ht).1
      rw [hfull t hready.cache_size hready.md] at hcond
      have hroom := hready.fits
      omega) _ _ _ (.inl rfl) hs
  rcases hloop.1 with rfl | hevicted
  · have hroom := hloop.2
    rw [← Bool.not_eq_true, hfull s' hcs hmd] at hroom
    exact .inl ⟨rfl, by omega⟩
  · exact .inr hevicted

theorem Bounds.ready (hroom : s.occupied_byte < c) : Ready c s := by
  obtain ⟨hB1, hB2⟩ := h.full hroom
  have hocc := h.units.inv.occ
  have hT2 := h.units.inv.size_nonneg .L2_data
  refine ⟨h.units, h.md, h.cache_size, by omega, fun _ => ⟨hB1, hB2⟩, ?_⟩
  unfold Dir.L1
  split_ifs <;> omega

theorem Bounds.total_of_room (hroom : s.occupied_byte < c) : s.L1 + s.L2 < c := by
  obtain ⟨hB1, hB2⟩ := h.full hroom
  have hocc := h.units.inv.occ
  unfold Dir.L1 Dir.L2
  omega

theorem admitted_total (hunit : req.obj_size = 1) (hpos : 1 ≤ c) {n : Nat}
    (hout : s.dir.table req.obj_id = none)
    (hs : whileLoop ((CAR_ops rnd).full_for req) ((CAR_ops rnd).evict · req) n s = some t) (hi : CAR_insert t req = some s') :
    Bounds c s'.toDir ∧ (s.occupied_byte < c ∧ s'.L1 + s'.L2 ≤ c ∨
      s.occupied_byte = c ∧ (Drops rnd s ∧ s'.L1 + s'.L2 = s.L1 + s.L2 ∨ ¬ Drops rnd s ∧ s'.L1 + s'.L2 = s.L1 + s.L2 + 1)) := by
  rcases loop_evicts_once h hunit hpos hs with ⟨rfl, hroom⟩ | ⟨hfull, hev⟩
  · obtain ⟨hbounds, htotal⟩ := insert_bounds (h.ready hroom) hunit hout hi
    have hless := h.total_of_room hroom
    exact ⟨hbounds, .inl ⟨hroom, by omega⟩⟩
  · obtain ⟨hready, n, m, hm, htakes⟩ := evict_takes h hpos hfull hev
    obtain ⟨hbounds, htotal⟩ := insert_bounds hready hunit ((evict_trims hev).dir.absent _ hout) hi
    have hL1 := htakes.L1_eq
    have hL2 := htakes.L2_eq
    refine ⟨hbounds, .inr ⟨hfull, ?_⟩⟩
    rcases hm with ⟨rfl, hdrops⟩ | ⟨rfl, hdrops⟩
    · exact .inl ⟨hdrops, by omega⟩
    · exact .inr ⟨hdrops, by omega⟩

theorem get_bounds {hit : Bool} (hunit : req.obj_size = 1) (hget : CAR_get rnd s req = some (s', hit)) :
    Bounds c s'.toDir ∧ (s.L1 + s.L2 ≤ 2 * c → (s'.L1 + s'.L2 ≤ 2 * c ↔ MakesRoom rnd s req)) := by
  have hentries := h.units.entries_eq
  have hcs := h.cache_size
  cases hit with
  | true =>
    obtain ⟨hbounds, hin, hsame⟩ := find_found_bounds h (CacheOps.cache_get_base_found hget)
    exact ⟨hbounds, fun hle => iff_of_true (by omega) (.inl hin)⟩
  | false =>
    obtain ⟨s1, s2, admitted, hf, hc, hrest⟩ := CacheOps.cache_get_base_missed hget
    obtain ⟨hbounds1, hwhich⟩ := find_takes h hf
    obtain ⟨hout, -, hadm⟩ := find_missed hf
    cases hc
    split_ifs at hrest with hadm1
    · obtain ⟨t, hloop, hi⟩ := hrest
      have hfits := can_insert_fits hadm1
      rw [hunit, hbounds1.md, hbounds1.cache_size] at hfits
      obtain ⟨hbounds', hcases⟩ := admitted_total hbounds1 hunit hfits hout hloop hi
      refine ⟨hbounds', fun hle => ?_⟩
      rcases hwhich with ⟨hnone, rfl⟩ | ⟨hin, hless⟩
      · have hroom : s.occupied_byte < c → MakesRoom rnd s req := fun hlt => .inr (.inr (.inl (by omega)))
        have hdrops_iff : Drops rnd (s.onDir Dir.count_req) ↔ Drops rnd s :=
          ⟨fun hd => { hd with }, fun hd => { hd with }⟩
        have hsum : (s.onDir Dir.count_req).L1 + (s.onDir Dir.count_req).L2 = s.L1 + s.L2 := rfl
        rcases hcases with ⟨hlt, htotal⟩ | ⟨hfull, ⟨hdrops, htotal⟩ | ⟨hdrops, htotal⟩⟩
        · exact iff_of_true (by omega) (hroom hlt)
        · exact iff_of_true (by omega) (.inr (.inr (.inr (.inr (hdrops_iff.1 hdrops)))))
        · -- one entry more, so that there was to be room for it
          have hfull' : s.occupied_byte = c := hfull
          constructor
          · intro hle'
            exact .inr (.inr (.inr (.inl (by omega))))
          · rintro (hin | hrefused | hlt | hlt | hd)
            · exact absurd hnone hin
            · rw [hadm, hrefused] at hadm1
              cases hadm1
            · omega
            · omega
            · exact absurd (hdrops_iff.2 hd) hdrops
      · refine iff_of_true ?_ (.inl hin)
        rcases hcases with ⟨-, htotal⟩ | ⟨-, ⟨-, htotal⟩ | ⟨-, htotal⟩⟩ <;> omega
    · subst hrest
      refine ⟨hbounds1, fun hle => iff_of_true ?_ (.inr (.inl ?_))⟩
      · rcases hwhich with ⟨-, rfl⟩ | ⟨-, hless⟩
        · exact hle
        · omega
      · rw [← hadm]
        simpa using hadm1

/-! ## Runs -/

structure Bounded (c : Nat) (d : Dir) : Prop where
  T1_B1 : (d.dir.list .L1_data).length + (d.dir.list .L1_ghost).length ≤ c
  all : (d.dir.list .L1_data).length + (d.dir.list .L2_data).length + (d.dir.list .L1_ghost).length +
    (d.dir.list .L2_ghost).length ≤ 2 * c
  table : ∀ ids : List ObjId, ids.Nodup → (∀ i ∈ ids, d.dir.table i ≠ none) → ids.length ≤ 2 * c

theorem Bounds.L1_length : ((s.dir.list .L1_data).length + (s.dir.list .L1_ghost).length : Int) ≤ c := by
  have hL1 := h.L1_le
  unfold Dir.L1 at hL1
  rwa [h.units.size_eq, h.units.size_eq] at hL1

end

theorem Bounds.bounded_iff {c : Nat} (h : Bounds c s.toDir) : Bounded c s.toDir ↔ s.L1 + s.L2 ≤ 2 * c := by
  have hentries := h.units.entries_eq
  have hL1 := h.L1_length
  constructor
  · intro hb
    have hall : s.entries ≤ 2 * c := hb.all
    omega
  · intro hle
    have hall : s.entries ≤ 2 * c := by omega
    exact ⟨by omega, hall, fun ids hids htable => (h.units.inv.length_le_entries hids htable).trans hall⟩

theorem init_bounds (cache_size : Nat) (p : Int) (adm : Option (Request → Bool)) :
    Bounds cache_size (CAR_init cache_size false p adm).toDir where
  units := ⟨(CAR_init_fits cache_size false p adm).inv, by simp [CAR_init]⟩
  md := rfl
  cache_size := rfl
  fits := by simp [CAR_init]
  full := by simp [CAR_init]
  L1_le := by simp [Dir.L1, CAR_init]

theorem serve_bounds (h : Bounds c s.toDir) (hunit : req.obj_size = 1) : ∃ s', CAR_serve rnd s req = some s' ∧ Bounds c s'.toDir := by
  have hfits : DirFits s.toDir := ⟨h.units.inv, by rw [h.cache_size]; exact h.fits⟩
  obtain ⟨s', hit, hget, -⟩ := CAR_get_spec rnd hfits (hunit ▸ le_refl (1 : Int) : 1 ≤ req.obj_size)
  exact ⟨s', by simp [CAR_serve, hget], (get_bounds h hunit hget).1⟩

/-- T1 and B1 stay bounded in every run of gets. The whole directory does in every run whose gets make room, and the
next get keeps it bounded if and only if it makes room. Objects have no metadata. -/
theorem CAR_directory_bound (rnd : ℚ → ℚ) (cache_size : Nat) (p : Int) (adm : Option (Request → Bool)) :
    (∀ reqs : List Request, (∀ req ∈ reqs, req.obj_size = 1) →
      ∃ s, runs (CAR_serve rnd) (CAR_init cache_size false p adm) reqs = some s ∧
        (s.dir.list .L1_data).length + (s.dir.list .L1_ghost).length ≤ cache_size) ∧
    ∀ s, Reach (CAR_serve rnd) (fun s req => req.obj_size = 1 ∧ MakesRoom rnd s req) (CAR_init cache_size false p adm) s →
      Bounded cache_size s.toDir ∧ ∀ req, req.obj_size = 1 → ∃ s', CAR_serve rnd s req = some s' ∧
        (Bounded cache_size s'.toDir ↔ MakesRoom rnd s req) := by
  have hserve : ∀ s s' req, Bounds cache_size s.toDir → req.obj_size = 1 → CAR_serve rnd s req = some s' →
      Bounds cache_size s'.toDir ∧ (s.L1 + s.L2 ≤ 2 * cache_size → (s'.L1 + s'.L2 ≤ 2 * cache_size ↔ MakesRoom rnd s req)) := by
    intro s s' req h hunit hs
    obtain ⟨⟨t, hit⟩, hget, rfl⟩ := map_eq_some_iff.1 hs
    exact get_bounds h hunit hget
  constructor
  · intro reqs hunit
    obtain ⟨s, hrun, h⟩ := runs_total (fun s : State => Bounds cache_size s.toDir) (fun req : Request => req.obj_size = 1)
      (fun s req h hsize => serve_bounds h hsize) reqs _ hunit (init_bounds cache_size p adm)
    have hL1 := h.L1_length
    exact ⟨s, hrun, by omega⟩
  · intro s hr
    have hinv : Bounds cache_size s.toDir ∧ s.L1 + s.L2 ≤ 2 * cache_size := by
      apply hr.inv (fun s : State => Bounds cache_size s.toDir ∧ s.L1 + s.L2 ≤ 2 * (cache_size : Int))
      · rintro t req t' ⟨h, hle⟩ ⟨hunit, hroom⟩ hs
        obtain ⟨h', hiff⟩ := hserve t t' req h hunit hs
        exact ⟨h', (hiff hle).2 hroom⟩
      · refine ⟨init_bounds cache_size p adm, ?_⟩
        simp only [Dir.L1, Dir.L2, CAR_init]
        omega
    obtain ⟨h, hle⟩ := hinv
    refine ⟨h.bounded_iff.2 hle, fun req hunit => ?_⟩
    obtain ⟨s', hs, h'⟩ := serve_bounds h hunit
    exact ⟨s', hs, h'.bounded_iff.trans ((hserve s s' req h hunit hs).2 hle)⟩

theorem CAR_directory_bound_beside_ghost : ∃ s s',
    Reach (CAR_serve fun x => x) (fun s req => req.obj_size = 1 ∧ MakesRoom (fun x => x) s req) (CAR_init 2 false) s ∧
      s.toDir.Ghost 2 ∧ s.toDir.Resident 3 ∧ CAR_serve (fun x => x) s { obj_id := 4 } = some s' ∧ s'.toDir.Ghost 3 ∧
      Bounded 2 s'.toDir := by
  obtain ⟨s, hs, hghost, hin, hroom, s', hs', hout⟩ : ∃ s,
      runs (fun s req => if req.obj_size = 1 ∧ (s.entries : Int) < 2 * s.cache_size then CAR_serve (fun x => x) s req else none)
        (CAR_init 2 false) ([1, 1, 2, 3].map fun id => { obj_id := id }) = some s ∧
      (∃ o, s.dir.table 2 = some o ∧ o.ghost = true) ∧ (∃ o, s.dir.table 3 = some o ∧ o.ghost = false) ∧
      (s.entries : Int) < 2 * s.cache_size ∧ ∃ s', CAR_serve (fun x => x) s { obj_id := 4 } = some s' ∧
        ∃ o, s'.dir.table 3 = some o ∧ o.ghost = true := by decide +kernel
  have hreach : Reach (CAR_serve fun x => x) (fun s req => req.obj_size = 1 ∧ MakesRoom (fun x => x) s req) (CAR_init 2 false) s :=
    (Reach.of_checked hs).imp fun _ _ h => ⟨h.1, .inr (.inr (.inr (.inl h.2)))⟩
  obtain ⟨u, hu, hiff⟩ := ((CAR_directory_bound (fun x => x) 2 0 none).2 s hreach).2 { obj_id := 4 } rfl
  cases hs'.symm.trans hu
  exact ⟨s, s', hreach, hghost, hin, hs', hout, hiff.2 (.inr (.inr (.inr (.inl hroom))))⟩

/-- A cache of one object: 1 and then 2 go through T2 to B2, which is never trimmed. -/
theorem not_CAR_directory_bound : ¬ ∀ (cache_size : Nat) (reqs : List Request) (s : State), (∀ req ∈ reqs, req.obj_size = 1) →
    runs (CAR_serve fun x => x) (CAR_init cache_size false) reqs = some s → Bounded cache_size s.toDir := by
  intro hclaim
  obtain ⟨s, hs, hentries⟩ : ∃ s, runs (CAR_serve fun x => x) (CAR_init 1 false)
      [{ obj_id := 1 }, { obj_id := 1 }, { obj_id := 2 }, { obj_id := 2 }, { obj_id := 3 }] = some s ∧
        2 < s.entries := by decide +kernel
  have hall : s.entries ≤ 2 := (hclaim 1 _ s (by simp) hs).all
  omega

end CacheSim.Car
