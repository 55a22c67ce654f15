import CacheSim.Arc.Proofs
import CacheSim.Directory.Units

/-!
# The size of ARC's directory

With objects of size 1 the bytes of a list are its length.
-/

namespace CacheSim.Arc

open Lib Directory
open Option (bind_eq_some_iff)

/-! ## One get -/

variable {c : Int} {s s' : State} {req : Request}

def L1 (s : State) : Int := s.size .L1_data + s.size .L1_ghost

def L2 (s : State) : Int := s.size .L2_data + s.size .L2_ghost

structure Base (c : Int) (s : State) : Prop where
  units : Units s.toDir
  md : s.obj_md_size = 0
  cache_size : s.cache_size = c

theorem Base.occupied (h : Base c s) : s.occupied_byte = s.size .L1_data + s.size .L2_data := h.units.inv.occ

structure Bounds (c : Int) (s : State) : Prop extends Base c s where
  fits : s.occupied_byte ≤ c
  full : s.occupied_byte < c → s.size .L1_ghost = 0 ∧ s.size .L2_ghost = 0
  L1_le : L1 s ≤ c
  total_le : L1 s + L2 s ≤ 2 * c
  clock : s.vtime_last_req_in_ghost ≤ s.n_req ∧ 0 ≤ s.n_req

structure Waiting (c : Int) (s : State) : Prop extends Base c s where
  fits : s.occupied_byte ≤ c
  full : s.occupied_byte < c → s.size .L1_ghost = 0 ∧ s.size .L2_ghost = 0
  L1_le : L1 s ≤ c
  total_le : L1 s + L2 s + (if s.ghostHit then 1 else 0) ≤ 2 * c
  clock : s.vtime_last_req_in_ghost ≤ s.n_req ∧ 0 ≤ s.n_req

structure Ready (c : Int) (s : State) : Prop extends Base c s where
  fits : s.occupied_byte + 1 ≤ c
  full : s.occupied_byte + 1 < c → s.size .L1_ghost = 0 ∧ s.size .L2_ghost = 0
  L1_le : L1 s + (if s.ghostHit then 0 else 1) ≤ c
  total_le : L1 s + L2 s + 1 ≤ 2 * c
  clock : s.vtime_last_req_in_ghost ≤ s.n_req ∧ 0 ≤ s.n_req

/-- What one of the helpers does: it changes the directory only, and it takes `n₁` and `n₂` from the two sides. -/
structure Takes (c n₁ n₂ n : Int) (s s' : State) : Prop extends Base c s' where
  L1_eq : L1 s' = L1 s - n₁
  L2_eq : L2 s' = L2 s - n₂
  occ : s'.occupied_byte = s.occupied_byte - n
  ghostHit : s'.ghostHit = s.ghostHit
  clock : s'.vtime_last_req_in_ghost = s.vtime_last_req_in_ghost ∧ s'.n_req = s.n_req

variable {k : ListId} {i : ObjId} {o : Obj} {rnd : ℚ → ℚ}

section

variable (h : Base c s)
include h

theorem onTail_inv {f : ObjId → Obj → Dir → Dir} (hs : s.onTail k f = some s') :
    ∃ i o, s.dir.table i = some o ∧ o.listId = k ∧ s' = s.onDir (f i o) := by
  obtain ⟨i, htail, hs⟩ := bind_eq_some_iff.1 hs
  obtain ⟨o, ho, hs⟩ := bind_eq_some_iff.1 hs
  obtain ⟨o', ho', hid⟩ := h.units.inv.wf.table_of_mem (List.mem_of_getLast? htail)
  cases ho'.symm.trans ho
  exact ⟨i, o, ho, hid, (Option.some.inj hs).symm⟩

theorem onGhostTail_inv (hs : s.onGhostTail k = some s') :
    ∃ i o, s.dir.table i = some o ∧ o.listId = k ∧ o.ghost = true ∧ s' = s.onDir (·.discard i o) := by
  obtain ⟨i, htail, hs⟩ := bind_eq_some_iff.1 hs
  obtain ⟨o, ho, hs⟩ := bind_eq_some_iff.1 hs
  obtain ⟨o', ho', hid⟩ := h.units.inv.wf.table_of_mem (List.mem_of_getLast? htail)
  cases ho'.symm.trans ho
  obtain ⟨_, hg, hs⟩ := bind_eq_some_iff.1 hs
  exact ⟨i, o, ho, hid, by simpa using hg, (Option.some.inj hs).symm⟩

theorem takes_of_dir {f : Dir → Dir} {n1 n2 n : Int} (ht : s.toDir.Takes n1 n2 n (f s.toDir)) :
    Takes c n1 n2 n s (s.onDir f) where
  __ := ht
  md := ht.md.trans h.md
  cache_size := ht.cache_size.trans h.cache_size
  ghostHit := by
    unfold State.ghostHit State.onDir
    rw [ht.n_req]
  clock := ⟨rfl, ht.n_req⟩

section

variable (hi : s.dir.table i = some o)
include hi

theorem demote_takes (hg : o.ghost = false) :
    Takes c 0 0 1 s (s.onDir fun d => d.demote i o) := takes_of_dir h (h.units.demote_takes hi hg)

theorem drop_takes (hid : o.listId = .L1_data) :
    Takes c 1 0 1 s (s.onDir fun d => d.drop i o) := takes_of_dir h (h.units.drop_takes hi hid)

theorem discard_takes (hg : o.ghost = true) :
    Takes c (if o.listId = .L1_ghost then 1 else 0) (if o.listId = .L2_ghost then 1 else 0) 0 s (s.onDir fun d => d.discard i o) :=
  takes_of_dir h (h.units.discard_takes hi hg)

end

theorem replace_takes (hs : ARC_replace rnd s = some s') : Takes c 0 0 1 s s' := by
  unfold ARC_replace at hs
  split_ifs at hs
  · obtain ⟨i, o, hi, hid, rfl⟩ := onTail_inv h hs
    exact demote_takes h hi (Obj.listId_L1_data.1 hid).2
  · obtain ⟨i, o, hi, hid, rfl⟩ := onTail_inv h hs
    exact demote_takes h hi (Obj.listId_L2_data.1 hid).2

theorem ghost_then_replace_takes (hs : (s.onGhostTail k).bind (ARC_replace rnd) = some s') :
    Takes c (if k = .L1_ghost then 1 else 0) (if k = .L2_ghost then 1 else 0) 1 s s' := by
  obtain ⟨t, ht, hs⟩ := bind_eq_some_iff.1 hs
  obtain ⟨i, o, hi, rfl, hg, rfl⟩ := onGhostTail_inv h ht
  have h1 := discard_takes h hi hg
  have h2 := replace_takes h1.toBase hs
  have hL1 := h1.L1_eq
  have hL1' := h2.L1_eq
  have hL2 := h1.L2_eq
  have hL2' := h2.L2_eq
  have hocc := h1.occ
  have hocc' := h2.occ
  exact ⟨h2.toBase, by omega, by omega, by omega, h2.ghostHit.trans h1.ghostHit, h2.clock.1.trans h1.clock.1,
    h2.clock.2.trans h1.clock.2⟩

end

theorem ready_of_takes {n1 n2 : Int} (h : Waiting c s) (ht : Takes c n1 n2 1 s s') (hfull : s.occupied_byte = c)
    (hL1 : L1 s - n1 + (if s.ghostHit then 0 else 1) ≤ c) (htotal : L1 s - n1 + (L2 s - n2) + 1 ≤ 2 * c) : Ready c s' := by
  have hocc := ht.occ
  refine ⟨ht.toBase, by omega, fun hlt => by omega, ?_, ?_, ?_⟩
  · rw [ht.L1_eq, ht.ghostHit]
    exact hL1
  · rw [ht.L1_eq, ht.L2_eq]
    exact htotal
  · rw [ht.clock.1, ht.clock.2]
    exact h.clock

theorem evict_ready (h : Waiting c s) (hunit : req.obj_size = 1) (hfull : s.occupied_byte = c)
    (hs : ARC_evict rnd s req = some s') : Ready c s' := by
  have hL1 := h.L1_le
  have htotal := h.total_le
  have hocc := h.toBase.occupied
  have hcs := h.cache_size
  have hmd := h.md
  have hT1 := h.units.inv.size_nonneg .L1_data
  unfold ARC_evict at hs
  split_ifs at hs with hghost
  · simp only [hghost, if_true] at htotal
    exact ready_of_takes h (replace_takes h.toBase hs) hfull (by simp [hghost]; omega) (by omega)
  · unfold ARC_evict_miss_on_all_queues at hs
    dsimp only at hs
    unfold L1 at hL1 htotal
    unfold L2 at htotal
    split_ifs at hs with hA hB1' hmany
    · exact ready_of_takes h (ghost_then_replace_takes h.toBase hs) hfull (by unfold L1; simp; omega) (by unfold L1 L2; simp; omega)
    · obtain ⟨i, o, hi, hid, rfl⟩ := onTail_inv h.toBase hs
      exact ready_of_takes h (drop_takes h.toBase hi hid) hfull (by unfold L1; omega) (by unfold L1 L2; omega)
    · obtain ⟨-, -, hs⟩ := bind_eq_some_iff.1 hs
      exact ready_of_takes h (ghost_then_replace_takes h.toBase hs) hfull (by unfold L1; simp; omega) (by unfold L1 L2; simp; omega)
    · -- with `2 * c` entries B2 is not empty
      obtain ⟨-, -, hs⟩ := bind_eq_some_iff.1 hs
      exact ready_of_takes h (replace_takes h.toBase hs) hfull (by unfold L1; omega) (by unfold L1 L2; omega)

section

variable (h : Bounds c s)
include h

theorem Bounds.count_req : Bounds c (s.onDir Dir.count_req) ∧ (s.onDir Dir.count_req).ghostHit = false := by
  have hinv := h.units.inv
  have hclock := h.clock
  refine ⟨{ h with toBase := { h with units := ⟨⟨hinv.wf, hinv.ok, hinv.size, hinv.md, hinv.occ, hinv.n_obj⟩,
    h.units.unit⟩ }, clock := ?_ }, ?_⟩
  · show s.vtime_last_req_in_ghost ≤ s.n_req + 1 ∧ 0 ≤ s.n_req + 1
    omega
  · have hne : ¬ s.vtime_last_req_in_ghost = s.n_req + 1 := by omega
    simp [State.ghostHit, State.onDir, hne]

theorem discard_waiting (hi : s.dir.table i = some o) (hg : o.ghost = true)
    (hdir : s'.toDir = s.toDir.discard i o) (hclock : s'.vtime_last_req_in_ghost = s.n_req) : Waiting c s' := by
  have ht := discard_takes h.toBase hi hg
  have hid : o.listId = .L1_ghost ∨ o.listId = .L2_ghost := by
    by_cases hl : o.lru_id = 1 <;> simp [Obj.listId, hl, hg]
  have hle := h.units.inv.charge_le_size hi
  rw [h.units.unit i o hi] at hle
  have hL1 := h.L1_le
  have htotal := h.total_le
  have hfull := h.full
  have hL1' : L1 s' = L1 s - if o.listId = .L1_ghost then 1 else 0 := by
    unfold L1
    rw [hdir]
    exact ht.L1_eq
  have hL2' : L2 s' = L2 s - if o.listId = .L2_ghost then 1 else 0 := by
    unfold L2
    rw [hdir]
    exact ht.L2_eq
  have hocc : s'.occupied_byte = s.occupied_byte := by
    rw [hdir]
    exact ht.occ.trans (Int.sub_zero _)
  have hreq : s'.n_req = s.n_req := by
    rw [hdir]
    exact ht.clock.2
  refine ⟨⟨hdir ▸ ht.units, hdir ▸ ht.md, hdir ▸ ht.cache_size⟩, ?_, ?_, ?_, ?_, ?_⟩
  · rw [hocc]
    exact h.fits
  · -- only a full cache has ghosts
    rcases hid with hid | hid <;> rw [hid] at hle <;> omega
  · rw [hL1']
    split_ifs <;> omega
  · rw [hL1', hL2']
    rcases hid with hid | hid <;> rw [hid] <;> simp <;> split_ifs <;> omega
  · rw [hclock, hreq]
    exact ⟨le_rfl, h.clock.2⟩

theorem Bounds.hit (hunits : Units s'.toDir) (hmd : s'.obj_md_size = s.obj_md_size)
    (hcs : s'.cache_size = s.cache_size) (hocc : s'.occupied_byte = s.occupied_byte)
    (hB1 : s'.size .L1_ghost = s.size .L1_ghost) (hB2 : s'.size .L2_ghost = s.size .L2_ghost)
    (hT1 : s'.size .L1_data ≤ s.size .L1_data)
    (hclock : s'.vtime_last_req_in_ghost = s.vtime_last_req_in_ghost ∧ s'.n_req = s.n_req) : Bounds c s' := by
  have hL1 := h.L1_le
  have htotal := h.total_le
  have hsum := h.toBase.occupied
  have hsum' : s'.occupied_byte = s'.size .L1_data + s'.size .L2_data := hunits.inv.occ
  unfold L1 at hL1 htotal
  unfold L2 at htotal
  refine ⟨⟨hunits, hmd.trans h.md, hcs.trans h.cache_size⟩, ?_, ?_, ?_, ?_, ?_⟩
  · rw [hocc]
    exact h.fits
  · rw [hocc, hB1, hB2]
    exact h.full
  · unfold L1
    omega
  · unfold L1 L2
    omega
  · rw [hclock.1, hclock.2]
    exact h.clock

theorem find_in_data_bounds {id : ObjId} {obj : Obj} (hi : s.dir.table id = some obj) (hg : obj.ghost = false) :
    Bounds c (find_in_data s id obj) := by
  unfold find_in_data
  split_ifs with hl
  · have hid := Obj.listId_L1_data.2 ⟨hl, hg⟩
    obtain ⟨hunits, hsize⟩ := h.units.promote hi hid true obj.reference
    have hs := h.units.inv.promote_sets hi hid true obj.reference
    have hreq : (s.toDir.promote id obj true obj.reference).n_req = s.n_req := by
      simp [Dir.promote, Dir.remove_obj_from_list, Dir.link]
    have hocc : (s.toDir.promote id obj true obj.reference).occupied_byte = s.occupied_byte := by
      rw [hunits.inv.occ, h.toBase.occupied, hsize, hsize]
      simp
    exact h.hit hunits hs.md hs.cache_size hocc ((hsize _).trans (by simp)) ((hsize _).trans (by simp))
      ((hsize _).trans_le (by simp)) ⟨rfl, hreq⟩
  · have hid : obj.listId = .L2_data := Obj.listId_L2_data.2 ⟨hl, hg⟩
    have hmove := h.units.inv.move_keeps hi true
    rw [hid] at hmove
    exact h.hit ⟨hmove.inv, h.units.unit⟩ rfl rfl rfl rfl rfl le_rfl ⟨rfl, rfl⟩

theorem find_bounds {hit : Bool}
    (hs : ARC_find rnd (s.onDir Dir.count_req) req = some (s', hit)) :
    if hit then Bounds c s' else Waiting c s' ∧ s'.dir.table req.obj_id = none := by
  obtain ⟨hcount, hnohit⟩ := h.count_req
  unfold ARC_find at hs
  cases ht : (s.onDir Dir.count_req).dir.table req.obj_id with
  | none =>
    rw [ht] at hs
    cases hs
    refine ⟨{ hcount with total_le := ?_ }, ht⟩
    rw [hnohit]
    exact (Int.add_zero _).trans_le hcount.total_le
  | some obj =>
    rw [ht] at hs
    dsimp only at hs
    have hgone : ((s.onDir Dir.count_req).discard req.obj_id obj).dir.table req.obj_id = none := by simp [Dir.discard]
    split_ifs at hs with hg hl
    · obtain ⟨-, -, hs⟩ := bind_eq_some_iff.1 hs
      cases hs
      exact ⟨discard_waiting hcount ht hg rfl rfl, hgone⟩
    · obtain ⟨-, -, hs⟩ := bind_eq_some_iff.1 hs
      cases hs
      exact ⟨discard_waiting hcount ht hg rfl rfl, hgone⟩
    · cases hs
      exact find_in_data_bounds hcount ht (by simpa using hg)

end

theorem Waiting.ready (h : Waiting c s) (hroom : s.occupied_byte + 1 ≤ c) : Ready c s := by
  obtain ⟨hB1, hB2⟩ := h.full (by omega)
  have hocc := h.toBase.occupied
  have hT1 := h.units.inv.size_nonneg .L1_data
  have hT2 := h.units.inv.size_nonneg .L2_data
  refine ⟨h.toBase, hroom, fun _ => ⟨hB1, hB2⟩, ?_, ?_, h.clock⟩
  · unfold L1
    split_ifs <;> omega
  · unfold L1 L2
    omega

theorem enter_bounds {lru_id : Nat} (h : Ready c s) (hunit : req.obj_size = 1) (hout : s.dir.table req.obj_id = none)
    (hl : lru_id = 1 ∨ lru_id = 2) (hL1 : L1 s + (if lru_id = 1 then 1 else 0) ≤ c)
    (hdir : s'.toDir = s.toDir.enter req lru_id true)
    (hclock : s'.vtime_last_req_in_ghost = s.vtime_last_req_in_ghost ∨ s'.vtime_last_req_in_ghost = -1) : Bounds c s' := by
  obtain ⟨hunits, hsize⟩ := h.units.enter hout hunit h.md hl true
  have hs := h.units.inv.enter_sets req hout lru_id true
  have hocc := Dir.enter_occupied_byte (d := s.toDir) req lru_id true
  have hreq : (s.toDir.enter req lru_id true).n_req = s.n_req := by simp [Dir.enter, Dir.cache_insert_base, Dir.link]
  rw [hunit, h.md] at hocc
  rw [← hdir] at hunits hsize hs hocc hreq
  have hfits := h.fits
  have htotal := h.total_le
  have hclock' := h.clock
  have hid : ({ obj_size := req.obj_size, lru_id := lru_id } : Obj).listId = if lru_id = 1 then .L1_data else .L2_data := by
    simp [Obj.listId]
  unfold L1 at hL1 htotal
  unfold L2 at htotal
  refine ⟨⟨hunits, hs.md.trans h.md, hs.cache_size.trans h.cache_size⟩, by omega, ?_, ?_, ?_, by omega⟩
  · intro hlt
    obtain ⟨hB1, hB2⟩ := h.full (by omega)
    rw [hsize, hsize, hB1, hB2, hid]
    rcases hl with rfl | rfl <;> simp
  · unfold L1
    rw [hsize, hsize, hid]
    rcases hl with rfl | rfl <;> simp at hL1 ⊢ <;> omega
  · unfold L1 L2
    rw [hsize, hsize, hsize, hsize, hid]
    rcases hl with rfl | rfl <;> simp <;> omega

theorem insert_bounds (h : Ready c s) (hunit : req.obj_size = 1) (hout : s.dir.table req.obj_id = none)
    (hs : ARC_insert s req = some s') : Bounds c s' := by
  have hL1 := h.L1_le
  unfold ARC_insert at hs
  split_ifs at hs hL1 with hghost
  · cases hs
    exact enter_bounds h hunit hout (.inr rfl) hL1 rfl (.inr rfl)
  · cases hs
    exact enter_bounds h hunit hout (.inl rfl) hL1 rfl (.inl rfl)

theorem get_bounds (rnd : ℚ → ℚ) (h : Bounds c s) (hunit : req.obj_size = 1) :
    ∃ s' hit, ARC_get rnd s req = some (s', hit) ∧ Bounds c s' := by
  let Miss : State → Prop := fun t => Waiting c t ∧ t.dir.table req.obj_id = none
  let Admitted : State → Prop := fun t => (Waiting c t ∨ Ready c t) ∧ t.dir.table req.obj_id = none ∧ 1 ≤ c
  have hbase : ∀ t, Admitted t → Base c t := by
    rintro t ⟨ht | ht, -⟩
    · exact ht.toBase
    · exact ht.toBase
  apply CacheOps.cache_get_base_total (Bounds c) Miss Admitted (Bounds c) (fun t => t.occupied_byte.toNat) (fun _ _ => le_rfl)
    ?_ ?_ ?_ ?_ h
  · intro t ht
    obtain ⟨t', hit, hfind, -⟩ := ARC_find_spec rnd req ht.count_req.1.units.inv
    exact ⟨t', hit, hfind, find_bounds ht hfind⟩
  · rintro t ⟨ht, hout⟩
    refine ⟨t, _, rfl, ?_⟩
    split_ifs with hadm
    · have hfits := Dir.can_insert_fits hadm
      rw [hunit, ht.md, ht.cache_size] at hfits
      exact ⟨.inl ht, hout, by omega⟩
    · have htotal := ht.total_le
      refine { ht with total_le := ?_ }
      split_ifs at htotal <;> omega
  · rintro t ⟨ht, hout, hpos⟩ hfull
    have hb := hbase t ⟨ht, hout, hpos⟩
    have hfull' : c < t.occupied_byte + 1 := by
      rw [CacheOps.full_for_iff] at hfull
      have hmd := hb.md
      have hcs := hb.cache_size
      dsimp only [ARC_ops] at hfull
      omega
    rcases ht with ht | ht
    · have hspec : ∃ t', ARC_evict rnd t req = some t' ∧ Evicts t t' := by
        apply ARC_evict_spec rnd hb.units.inv (by omega) (by omega)
        rw [hunit, hb.md, hb.cache_size]
        omega
      obtain ⟨t', hevict, hkeeps, hless⟩ := hspec
      have hfits := ht.fits
      exact ⟨t', hevict, ⟨.inr (evict_ready ht hunit (by omega) hevict), hkeeps.absent _ hout, hpos⟩, by omega⟩
    · have hfits := ht.fits
      omega
  · rintro t ⟨ht, hout, hpos⟩ hroom
    have hb := hbase t ⟨ht, hout, hpos⟩
    have hroom' : t.occupied_byte + 1 ≤ c := by
      rw [CacheOps.full_for_false_iff] at hroom
      have hmd := hb.md
      have hcs := hb.cache_size
      dsimp only [ARC_ops] at hroom
      omega
    have hready : Ready c t := by
      rcases ht with ht | ht
      · exact ht.ready hroom'
      · exact ht
    obtain ⟨t', hinsert, -⟩ := ARC_insert_spec hb.units.inv hout (by omega)
    exact ⟨t', hinsert, insert_bounds hready hunit hout hinsert⟩

theorem init_bounds (cache_size : Nat) (adm : Option (Request → Bool)) : Bounds cache_size (ARC_init cache_size false adm) where
  units := ⟨(ARC_init_fits cache_size false adm).inv, by simp [ARC_init]⟩
  md := rfl
  cache_size := rfl
  fits := by simp [ARC_init]
  full := by simp [ARC_init]
  L1_le := by simp [L1, ARC_init]
  total_le := by
    simp only [L1, L2, ARC_init]
    omega
  clock := by simp [ARC_init]

/-- After every run of gets T1 and B1 hold no more entries than the cache, and all four lists twice as many. -/
theorem ARC_directory_bound (rnd : ℚ → ℚ) (cache_size : Nat) (adm : Option (Request → Bool)) (reqs : List Request)
    (hunit : ∀ req ∈ reqs, req.obj_size = 1) :
    ∃ s, runs (ARC_serve rnd) (ARC_init cache_size false adm) reqs = some s ∧
      (s.dir.list .L1_data).length + (s.dir.list .L1_ghost).length ≤ cache_size ∧
      (s.dir.list .L1_data).length + (s.dir.list .L2_data).length + (s.dir.list .L1_ghost).length +
        (s.dir.list .L2_ghost).length ≤ 2 * cache_size := by
  have hstep : ∀ s req, Bounds cache_size s → req.obj_size = 1 → ∃ s', ARC_serve rnd s req = some s' ∧ Bounds cache_size s' := by
    intro s req h hsize
    obtain ⟨s', hit, hget, h'⟩ := get_bounds rnd h hsize
    exact ⟨s', by simp [ARC_serve, hget], h'⟩
  obtain ⟨s, hrun, h⟩ := runs_total (Bounds cache_size) (fun req : Request => req.obj_size = 1) hstep reqs _ hunit
    (init_bounds cache_size adm)
  have hL1 := h.L1_le
  have htotal := h.total_le
  unfold L1 at hL1 htotal
  unfold L2 at htotal
  rw [h.units.size_eq, h.units.size_eq] at hL1
  rw [h.units.size_eq, h.units.size_eq, h.units.size_eq, h.units.size_eq] at htotal
  exact ⟨s, hrun, by omega, by omega⟩

theorem ARC_directory_bound_of_four_gets :
    ∃ s, runs (ARC_serve fun x => x) (ARC_init 2 false none)
        [{ obj_id := 1 }, { obj_id := 1 }, { obj_id := 2 }, { obj_id := 3 }] = some s ∧
      (s.dir.list .L1_data).length + (s.dir.list .L1_ghost).length ≤ 2 ∧
      (s.dir.list .L1_data).length + (s.dir.list .L2_data).length + (s.dir.list .L1_ghost).length +
        (s.dir.list .L2_ghost).length ≤ 2 * 2 :=
  ARC_directory_bound (fun x => x) 2 none _ (by decide)

end CacheSim.Arc
