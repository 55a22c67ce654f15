import CacheSim.Car.Model
import CacheSim.Directory.Serving

/-!
# CAR keeps its directory

One spec for each function of `CAR.c`.
-/

namespace CacheSim.Car

open Lib Directory

variable {s s' : State} {req : Request} {id : ObjId} {obj : Obj}

theorem CAR_find_spec (rnd : ℚ → ℚ) (req : Request) (h : DirInv s.toDir) : ∃ s' hit, CAR_find rnd s req = some (s', hit) ∧
    Keeps s.toDir s'.toDir ∧ (hit = false → s'.dir.table req.obj_id = none) := by
  cases ht : s.dir.table req.obj_id with
  | none =>
    exact ⟨s, false, by simp [CAR_find, ht], ⟨h, rfl, rfl, le_rfl, fun _ hj => hj⟩, fun _ => ht⟩
  | some obj =>
    have hcharge := h.charge_pos (h.ok _ _ ht)
    have hle := h.charge_le_size ht
    cases hg : obj.ghost with
    | false =>
      have hk := h.reorder_keeps ht true (List.Perm.refl _)
      rw [show s.set_list obj.listId (s.dir.list obj.listId) = s.toDir by simp [Dir.set_list]] at hk
      exact ⟨s.onDir (·.set_obj req.obj_id { obj with reference := true }), true,
        by simp [CAR_find, ht, hg], hk, by simp⟩
    | true =>
      have hk := (h.discard_keeps ht hg).1
      have hgone : (s.discard req.obj_id obj).dir.table req.obj_id = none := by simp [Dir.discard]
      by_cases hl : obj.lru_id = 1
      · have hsize : s.size .L1_ghost ≠ 0 := by
          rw [Obj.listId_L1_ghost.2 ⟨hl, hg⟩] at hle
          omega
        exact ⟨find_in_L1_ghost rnd s req.obj_id obj, false,
          by simp [CAR_find, ht, hg, hl, hsize], hk, fun _ => hgone⟩
      · have hsize : s.size .L2_ghost ≠ 0 := by
          rw [Obj.listId_L2_ghost.2 ⟨hl, hg⟩] at hle
          omega
        exact ⟨find_in_L2_ghost rnd s req.obj_id obj, false,
          by simp [CAR_find, ht, hg, hl, hsize], hk, fun _ => hgone⟩

theorem CAR_insert_spec (h : DirInv s.toDir) (ht : s.dir.table req.obj_id = none)
    (hsize : 1 ≤ req.obj_size) : ∃ s', CAR_insert s req = some s' ∧ DirInv s'.toDir ∧
      s'.cache_size = s.cache_size ∧
      s'.occupied_byte = s.occupied_byte + req.obj_size + s.obj_md_size := by
  by_cases hg : (s.curr_obj_in_L1_ghost || s.curr_obj_in_L2_ghost) = true
  · rw [CAR_insert, if_pos hg]
    exact ⟨_, rfl, h.enter_inv req ht hsize (Or.inr rfl) false, rfl, Dir.enter_occupied_byte _ _ _⟩
  · rw [CAR_insert, if_neg hg]
    exact ⟨_, rfl, h.enter_inv req ht hsize (Or.inl rfl) false, rfl, Dir.enter_occupied_byte _ _ _⟩

/-! ## The clock -/

def refBit (o : Obj) : Int := if o.reference then 1 else 0

def referenced (d : Dir) : Int := d.dir.total refBit .L1_data + d.dir.total refBit .L2_data

theorem refBit_le_one (o : Obj) : refBit o ≤ 1 := by
  simp only [refBit]
  split_ifs <;> omega

theorem refBit_nonneg (o : Obj) : 0 ≤ refBit o := by
  simp only [refBit]
  split_ifs <;> omega

theorem referenced_nonneg (d : Dir) : 0 ≤ referenced d := by
  have h1 := Part.total_nonneg (P := d.dir) refBit (fun _ o _ => refBit_nonneg o) .L1_data
  have h2 := Part.total_nonneg (P := d.dir) refBit (fun _ o _ => refBit_nonneg o) .L2_data
  simp only [referenced]
  omega

theorem referenced_clear {d d' : Dir} {i : ObjId} {o o' : Obj} (h : DirInv d)
    (hs : Sets d d' i (some o')) (hi : d.dir.table i = some o) (hg : o.ghost = false)
    (hr : o.reference = true) (hr' : o'.reference = false) : referenced d' < referenced d := by
  have hone : Part.share Obj.listId refBit .L1_data (some o) +
      Part.share Obj.listId refBit .L2_data (some o) = 1 := by
    by_cases hl : o.lru_id = 1 <;> simp [Part.share, Obj.listId, refBit, hg, hr, hl]
  have hzero : ∀ k, Part.share Obj.listId refBit k (some o') = 0 := by
    simp [Part.share, refBit, hr']
  simp only [referenced]
  rw [Part.total_sets refBit h.wf hs.part, Part.total_sets refBit h.wf hs.part, hi, hzero, hzero]
  omega

structure Round (s s' : State) (found : Bool) : Prop where
  keeps : Keeps s.toDir s'.toDir
  victim : found = true → s'.occupied_byte < s.occupied_byte
  turn : found = false → s'.occupied_byte = s.occupied_byte ∧ referenced s'.toDir < referenced s.toDir
  loses : found = true → s.toDir.Loses s'.toDir
  same : found = false → ∀ j, s'.toDir.Resident j ↔ s.toDir.Resident j

theorem demote_round (h : DirInv s.toDir) (ht : s.dir.table id = some obj) (hg : obj.ghost = false) :
    Round s (CAR_demote_to_MRU_data s id obj) true where
  keeps := (h.demote_keeps ht hg).1
  victim _ := (h.demote_keeps ht hg).2
  turn := by simp
  loses _ := (h.demote_loses ht hg).loses
  same := by simp

theorem Obj.ghost_eta (hg : obj.ghost = false) : { obj with ghost := false } = obj := by
  rw [← hg]

theorem L1_turn_round (h : DirInv s.toDir) (ht : s.dir.table id = some obj)
    (hid : obj.listId = .L1_data) (hr : obj.reference = true) :
    Round s (CAR_L1_move_to_tail_L2_data s id obj) false := by
  have hg := (Obj.listId_L1_data.1 hid).2
  rw [CAR_L1_move_to_tail_L2_data, Obj.ghost_eta hg]
  have hsets := h.promote_sets ht hid false false
  refine ⟨h.promote_keeps ht hid false false, by simp, fun _ => ⟨rfl, ?_⟩, by simp, fun _ => ?_⟩
  · exact referenced_clear h hsets ht hg hr rfl
  · apply hsets.resident_iff
    simp [Dir.Resident, ht]

theorem L2_turn_round (h : DirInv s.toDir) (ht : s.dir.table id = some obj)
    (hid : obj.listId = .L2_data) (hr : obj.reference = true) :
    Round s (CAR_move_to_tail_L2_data s id obj) false := by
  have hg := (Obj.listId_L2_data.1 hid).2
  have hperm : (push false id ((s.dir.list obj.listId).erase id)).Perm (s.dir.list obj.listId) :=
    (push_perm _ _ _).trans (List.perm_cons_erase (h.wf.mem_of_table ht)).symm
  have heq : (CAR_move_to_tail_L2_data s id obj).toDir = (s.set_list obj.listId
      (push false id ((s.dir.list obj.listId).erase id))).set_obj id { obj with reference := false } := by
    simp only [CAR_move_to_tail_L2_data, State.onDir, Dir.move, hid, hg]
  have hsets := h.reorder_sets ht false hperm
  have hturn := referenced_clear h hsets ht hg hr rfl
  have hkeeps := h.reorder_keeps ht false hperm
  rw [← heq] at hturn hkeeps hsets
  refine ⟨hkeeps, by simp, fun _ => ⟨rfl, hturn⟩, by simp, fun _ => ?_⟩
  apply hsets.resident_iff
  simp [Dir.Resident, ht]

theorem CAR_replace_round_spec (rnd : ℚ → ℚ) (h : DirInv s.toDir) (hocc : 0 < s.occupied_byte) :
    ∃ s' found, CAR_replace_round rnd s = some (s', found) ∧ Round s s' found := by
  have hsum := h.occ
  by_cases hL1 : use_L1 rnd s = true
  · have hne : s.dir.list .L1_data ≠ [] := by
      intro he
      simp [use_L1, he] at hL1
    obtain ⟨i, o, hi, ho, hid⟩ := h.head_some hne
    cases hr : o.reference with
    | false =>
      exact ⟨_, true, by simp [CAR_replace_round, hL1, hi, ho, hr],
        demote_round h ho (Obj.listId_L1_data.1 hid).2⟩
    | true =>
      exact ⟨_, false, by simp [CAR_replace_round, hL1, hi, ho, hr], L1_turn_round h ho hid hr⟩
  · have hne : s.dir.list .L2_data ≠ [] := by
      intro he
      have hL2 := Part.total_nil s.charge he
      have hsize := h.size .L2_data
      have hne1 : s.dir.list .L1_data ≠ [] := h.list_ne_nil (by omega)
      simp [use_L1, hne1, he] at hL1
    obtain ⟨i, o, hi, ho, hid⟩ := h.head_some hne
    cases hr : o.reference with
    | false =>
      exact ⟨_, true, by simp [CAR_replace_round, hL1, hi, ho, hr],
        demote_round h ho (Obj.listId_L2_data.1 hid).2⟩
    | true =>
      exact ⟨_, false, by simp [CAR_replace_round, hL1, hi, ho, hr], L2_turn_round h ho hid hr⟩

theorem CAR_replace_spec (rnd : ℚ → ℚ) (h : DirInv s.toDir) (hocc : 0 < s.occupied_byte) :
    ∃ s', CAR_replace rnd s = some s' ∧ Keeps s.toDir s'.toDir ∧
      s'.occupied_byte < s.occupied_byte ∧ s.toDir.Loses s'.toDir := by
  let I : State × Bool → Prop := fun t => Keeps s.toDir t.1.toDir ∧
    if t.2 then t.1.occupied_byte < s.occupied_byte ∧ s.toDir.Loses t.1.toDir
    else t.1.occupied_byte = s.occupied_byte ∧ ∀ j, t.1.toDir.Resident j ↔ s.toDir.Resident j
  let μ : State × Bool → Nat := fun t => if t.2 then 0 else (referenced t.1.toDir).toNat + 1
  have hbody : ∀ t, I t → (!t.2) = true →
      ∃ t', CAR_replace_round rnd t.1 = some t' ∧ I t' ∧ μ t' < μ t := by
    rintro ⟨t, found⟩ ⟨hk, ho⟩ hf
    obtain rfl : found = false := by simpa using hf
    simp only [Bool.false_eq_true] at ho hk ⊢
    obtain ⟨ho, hsame⟩ := ho
    obtain ⟨t', found', hround, hr⟩ := CAR_replace_round_spec rnd hk.inv (by omega)
    refine ⟨(t', found'), hround, ⟨hk.trans hr.keeps, ?_⟩, ?_⟩
    · cases found' with
      | true => exact ⟨ho ▸ hr.victim rfl, .same_trans hsame (hr.loses rfl)⟩
      | false => exact ⟨ho ▸ (hr.turn rfl).1, fun j => (hr.same rfl j).trans (hsame j)⟩
    · cases found' with
      | true => simp [μ]
      | false =>
        have := (hr.turn rfl).2
        have := referenced_nonneg t'.toDir
        simp only [μ, Bool.false_eq_true, if_false]
        omega
  have hfuel : μ (s, false) ≤ (s.dir.list .L1_data).length + (s.dir.list .L2_data).length + 1 := by
    have h1 := Part.total_le_length (P := s.dir) refBit refBit_le_one .L1_data
    have h2 := Part.total_le_length (P := s.dir) refBit refBit_le_one .L2_data
    simp only [μ, Bool.false_eq_true, if_false, referenced]
    omega
  obtain ⟨⟨t, found⟩, hloop, ⟨hk, ho⟩, hdone⟩ := whileLoop_total I μ hbody _ (s, false)
    ⟨⟨h, rfl, rfl, le_rfl, fun _ hj => hj⟩, by simp⟩ hfuel
  obtain rfl : found = true := by simpa using hdone
  exact ⟨t, by simp [CAR_replace, hloop], hk, ho⟩

theorem CAR_discard_LRU_ghost_spec {k : ListId} (h : DirInv s.toDir) (hk : s.size k ≠ 0)
    (hghost : ∀ o : Obj, o.listId = k → o.ghost = true) : ∃ s', CAR_discard_LRU_ghost k s = some s' ∧
      Keeps s.toDir s'.toDir ∧ s'.occupied_byte = s.occupied_byte ∧
      ∀ j, s'.toDir.Resident j ↔ s.toDir.Resident j := by
  obtain ⟨i, o, ht, ho, hid⟩ := h.tail_some hk
  have hg := hghost o hid
  exact ⟨s.onDir (·.discard i o), by simp [CAR_discard_LRU_ghost, ht, ho], (h.discard_keeps ho hg).1,
    (h.discard_keeps ho hg).2, h.discard_resident ho hg⟩

theorem CAR_evict_of_replace (rnd : ℚ → ℚ) (req : Request) {t : State} (h : DirFits s.toDir) (hocc : 0 < s.occupied_byte)
    (ht : CAR_replace rnd s = some t) (hk : Keeps s.toDir t.toDir) (hlt : t.occupied_byte < s.occupied_byte) :
    ∃ s', CAR_evict rnd s req = some s' ∧ Keeps s.toDir s'.toDir ∧ s'.occupied_byte < s.occupied_byte ∧
      ∀ j, s'.toDir.Resident j ↔ t.toDir.Resident j := by
  have hne : s.size .L1_data + s.size .L2_data ≠ 0 := by
    have := h.inv.occ
    omega
  have hfits := h.fits
  have hcs := hk.cache_size
  have hsum := hk.inv.occ
  have hL2 := hk.inv.size_nonneg .L2_data
  simp only [CAR_evict, hne, if_false, ht, Option.bind_eq_bind, Option.bind_some]
  split_ifs with hcurr hfull hboth
  · obtain ⟨t', ht', hk', ho', hsame⟩ := CAR_discard_LRU_ghost_spec hk.inv (by omega)
      fun o ho => (Obj.listId_L1_ghost.1 ho).2
    exact ⟨t', ht', hk.trans hk', by omega, hsame⟩
  · omega
  · exact ⟨t, rfl, hk, hlt, fun _ => Iff.rfl⟩
  · exact ⟨t, rfl, hk, hlt, fun _ => Iff.rfl⟩

theorem CAR_evict_spec (rnd : ℚ → ℚ) (req : Request) (h : DirFits s.toDir) (hocc : 0 < s.occupied_byte) :
    ∃ s', CAR_evict rnd s req = some s' ∧ Keeps s.toDir s'.toDir ∧
      s'.occupied_byte < s.occupied_byte ∧ s.toDir.Loses s'.toDir := by
  obtain ⟨t, ht, hk, hlt, hloses⟩ := CAR_replace_spec rnd h.inv hocc
  obtain ⟨s', hev, hk', hlt', hsame⟩ := CAR_evict_of_replace rnd req h hocc ht hk hlt
  exact ⟨s', hev, hk', hlt', hloses.trans_same hsame⟩

/-! ## Whole calls -/

theorem CAR_init_fits (cache_size : Nat) (md : Bool) (p : Int) (adm : Option (Request → Bool)) :
    DirFits (CAR_init cache_size md p adm).toDir where
  inv := {
    wf := by
      intro k
      simp [CAR_init]
    ok := by simp [CAR_init]
    size := by simp [CAR_init, Part.total]
    md := by cases md <;> simp [CAR_init]
    occ := rfl
    n_obj := rfl }
  fits := by simp [CAR_init]

theorem CAR_policy (rnd : ℚ → ℚ) (hsize : 1 ≤ req.obj_size) : Policy (CAR_ops rnd) State.toDir req where
  occupied _ := rfl
  md _ := rfl
  cache_size _ := rfl
  can_insert _ := rfl
  find s hs := by
    have hcount := hs.count_req_keeps
    obtain ⟨s', hit, hf, hk, hmiss⟩ := CAR_find_spec rnd req
      (s := s.onDir Dir.count_req) hcount.inv
    exact ⟨s', hit, hf, hcount.trans hk, hmiss⟩
  evict _ hs hpos _ := by
    obtain ⟨s', hev, hk, hlt, -⟩ := CAR_evict_spec rnd req hs hpos
    exact ⟨s', hev, hk, hlt⟩
  insert _ hs habs := CAR_insert_spec hs habs hsize

theorem CAR_get_spec (rnd : ℚ → ℚ) (h : DirFits s.toDir) (hsize : 1 ≤ req.obj_size) :
    ∃ s' hit, CAR_get rnd s req = some (s', hit) ∧ DirFits s'.toDir ∧
      s'.cache_size = s.cache_size :=
  (CAR_policy rnd hsize).get_spec h

/-- The calls of a driver that also frees space itself. -/
inductive Drive where
  | get (req : Request)
  | evict (req : Request)

def drive (rnd : ℚ → ℚ) (s : State) : Drive → Option State
  | .get req => (CAR_get rnd s req).map Prod.fst
  | .evict req => CAR_evict rnd s req

def Drive.Sized : Drive → Prop
  | .get req => 1 ≤ req.obj_size
  | .evict _ => True

theorem drive_spec (rnd : ℚ → ℚ) {c : Drive} (h : DirFits s.toDir) (hc : c.Sized) :
    ∃ s', drive rnd s c = some s' ∧ DirFits s'.toDir ∧ s'.cache_size = s.cache_size := by
  cases c with
  | get req =>
    obtain ⟨s', hit, hget, hfits, hcs⟩ := CAR_get_spec rnd h hc
    exact ⟨s', by simp [drive, hget], hfits, hcs⟩
  | evict req =>
    have hsum := h.inv.occ
    have h1 := h.inv.size_nonneg .L1_data
    have h2 := h.inv.size_nonneg .L2_data
    by_cases hocc : 0 < s.occupied_byte
    · obtain ⟨s', hev, hk, -, -⟩ := CAR_evict_spec rnd req h hocc
      exact ⟨s', hev, hk.dirFits h, hk.cache_size⟩
    · refine ⟨s, ?_, h, rfl⟩
      have hzero : s.size .L1_data + s.size .L2_data = 0 := by omega
      simp [drive, CAR_evict, hzero]

/-- Every run of gets and direct evictions returns in a consistent directory that fits the cache, and an
eviction there takes exactly one resident object, if there is one. -/
theorem CAR_directory (rnd : ℚ → ℚ) (cache_size : Nat) (md : Bool) (p : Int) (calls : List Drive)
    (hsizes : ∀ c ∈ calls, c.Sized) : ∃ s, runs (drive rnd) (CAR_init cache_size md p) calls = some s ∧
      s.toDir.Consistent ∧ s.cache_size = cache_size ∧ s.occupied_byte ≤ cache_size ∧
      ∀ req, (∃ i, s.toDir.Resident i) → ∃ s', CAR_evict rnd s req = some s' ∧ s.toDir.Loses s'.toDir := by
  let I : State → Prop := fun s => DirFits s.toDir ∧ s.cache_size = cache_size
  have hstep : ∀ s c, I s → c.Sized → ∃ s', drive rnd s c = some s' ∧ I s' := by
    rintro s c ⟨hs, hcs⟩ hsize
    obtain ⟨s', hcall, hfits, hcs'⟩ := drive_spec rnd hs hsize
    exact ⟨s', hcall, hfits, hcs'.trans hcs⟩
  obtain ⟨s, hrun, hfits, hcs⟩ := runs_total I Drive.Sized hstep calls _ hsizes
    ⟨CAR_init_fits cache_size md p none, rfl⟩
  refine ⟨s, hrun, hfits.inv.consistent, hcs, hcs ▸ hfits.fits, ?_⟩
  rintro req ⟨i, hi⟩
  obtain ⟨s', hev, -, -, hloses⟩ := CAR_evict_spec rnd req hfits (hfits.inv.occupied_pos hi)
  exact ⟨s', hev, hloses⟩

theorem CAR_directory_of_five_calls : ∃ s, runs (drive fun x => x) (CAR_init 2 false 0)
      [.get { obj_id := 1 }, .get { obj_id := 1 }, .get { obj_id := 2 }, .evict { obj_id := 3 }, .get { obj_id := 2 }] = some s ∧
    s.toDir.Consistent ∧ s.cache_size = (2 : Nat) ∧ s.occupied_byte ≤ (2 : Nat) ∧
    ∀ req, (∃ i, s.toDir.Resident i) → ∃ s', CAR_evict (fun x => x) s req = some s' ∧ s.toDir.Loses s'.toDir :=
  CAR_directory (fun x => x) 2 false 0 _ (by simp [Drive.Sized])

end CacheSim.Car

/-!
## The victim that CAR announces

`_CAR_to_replace` looks at the head of the list that the size test names, and turns no hand: if the
reference bit of that head is set, it looks at the same head again.
-/

namespace CacheSim.Car

open Lib Directory Option

variable {s s' : State} {req : Request} {i : ObjId} {o : Obj}

def named_head (rnd : ℚ → ℚ) (s : State) : Option ObjId := if names_L1 rnd s then s.head .L1_data else s.head .L2_data

def ClearHead (rnd : ℚ → ℚ) (s : State) : Prop :=
  ∃ i o, named_head rnd s = some i ∧ s.dir.table i = some o ∧ o.reference = false

instance (rnd : ℚ → ℚ) (s : State) : Decidable (ClearHead rnd s) :=
  decidable_of_iff (((named_head rnd s).bind s.dir.table).any (!·.reference) = true) (by
    simp only [ClearHead, any_eq_true, bind_eq_some_iff, Bool.not_eq_true']
    constructor
    · rintro ⟨o, ⟨i, hi, ho⟩, hr⟩
      exact ⟨i, o, hi, ho, hr⟩
    · rintro ⟨i, o, hi, ho, hr⟩
      exact ⟨o, ⟨i, hi, ho⟩, hr⟩)

theorem CAR_to_replace_round_eq (rnd : ℚ → ℚ) (s : State) : CAR_to_replace_round rnd s =
    (named_head rnd s).bind fun i => (s.dir.table i).map fun o => if !o.reference then some i else none := by
  unfold CAR_to_replace_round named_head
  simp only [map_eq_bind]
  split_ifs <;> rfl

theorem CAR_to_replace_stuck (rnd : ℚ → ℚ) (h : ¬ ClearHead rnd s) (fuel : Nat) : CAR_to_replace rnd fuel s = none := by
  have hround : CAR_to_replace_round rnd s = none ∨ CAR_to_replace_round rnd s = some none := by
    rw [CAR_to_replace_round_eq]
    rcases hi : named_head rnd s with _ | i
    · exact .inl rfl
    · rcases ho : s.dir.table i with _ | o
      · exact .inl (by simp [ho])
      · have hr : o.reference = true := by
          by_contra hr
          exact h ⟨i, o, hi, ho, Bool.eq_false_iff.2 hr⟩
        exact .inr (by simp [ho, hr])
  unfold CAR_to_replace
  induction fuel with
  | zero => rfl
  | succ n ih =>
    rcases hround with hround | hround
    · simp [whileLoop, hround]
    · rw [whileLoop, if_pos (by rfl), hround, Option.bind_some, ← hround]
      exact ih

theorem use_L1_of_head (rnd : ℚ → ℚ) (hi : named_head rnd s = some i) : use_L1 rnd s = names_L1 rnd s := by
  have hhead : ∀ k, s.head k = some i → s.dir.list k ≠ [] := by
    intro k hk hnil
    rw [Dir.head, hnil] at hk
    cases hk
  unfold named_head at hi
  unfold use_L1
  split_ifs at hi with htest
  · rw [if_neg (hhead _ hi)]
    split_ifs
    · exact htest.symm
    · rfl
  · have hne := hhead _ hi
    split_ifs
    · exact (Bool.eq_false_iff.2 htest).symm
    · rfl

theorem CAR_replace_of_clear (rnd : ℚ → ℚ) (hi : named_head rnd s = some i) (ho : s.dir.table i = some o)
    (hr : o.reference = false) : CAR_replace rnd s = some (CAR_demote_to_MRU_data s i o) := by
  have hround : CAR_replace_round rnd s = some (CAR_demote_to_MRU_data s i o, true) := by
    unfold CAR_replace_round
    rw [use_L1_of_head rnd hi]
    unfold named_head at hi
    split_ifs at hi ⊢ <;> simp [hi, ho, hr]
  have hloop : ∀ n, whileLoop (fun t : State × Bool => !t.2) (fun t => CAR_replace_round rnd t.1) (n + 1) (s, false) =
      some (CAR_demote_to_MRU_data s i o, true) := by
    intro n
    rw [whileLoop, if_pos (by rfl), hround, Option.bind_some]
    exact whileLoop_stop _ _ _ _ rfl
  simp only [CAR_replace, hloop, Option.bind_eq_bind]
  rfl

theorem CAR_evict_of_clear (rnd : ℚ → ℚ) (req : Request) (h : DirFits s.toDir) (hi : named_head rnd s = some i)
    (ho : s.dir.table i = some o) (hr : o.reference = false) :
    ∃ s', CAR_evict rnd s req = some s' ∧ s.LosesObj s'.toDir i := by
  have hmem : i ∈ s.dir.list .L1_data ∨ i ∈ s.dir.list .L2_data := by
    unfold named_head at hi
    split_ifs at hi
    · exact .inl (List.mem_of_head? hi)
    · exact .inr (List.mem_of_head? hi)
  have hg : o.ghost = false := by
    rcases hmem with hmem | hmem <;> obtain ⟨o', ho', hid⟩ := h.inv.wf.table_of_mem hmem <;> cases ho.symm.trans ho'
    · exact (Obj.listId_L1_data.1 hid).2
    · exact (Obj.listId_L2_data.1 hid).2
  obtain ⟨hkeeps, hless⟩ := h.inv.demote_keeps ho hg
  obtain ⟨s', hev, -, -, hsame⟩ := CAR_evict_of_replace rnd req h (h.inv.occupied_pos ⟨o, ho, hg⟩)
    (CAR_replace_of_clear rnd hi ho hr) hkeeps hless
  exact ⟨s', hev, (h.inv.demote_loses ho hg).trans_same hsame⟩

/-- In every state between gets and in the middle of one, when the cache is full, `CAR_to_evict` returns the object
that an eviction takes if and only if the head it looks at is there and has not been referenced. -/
theorem CAR_to_evict_agrees_iff (rnd : ℚ → ℚ) (cache_size : Nat) (md : Bool) (p : Int) (adm : Option (Request → Bool))
    (hr : Reach (serve_piece (CAR_ops rnd) State.toDir) (fun s a => a.Ok s.toDir) (CAR_init cache_size md p adm) s)
    (hfull : s.size .L1_data + s.size .L2_data ≥ s.cache_size) (candidate : Option ObjId) (req : Request) :
    (∃ fuel v, CAR_to_evict rnd fuel candidate s = some v ∧ s.Announces v ((CAR_evict rnd s req).map State.toDir)) ↔
      ClearHead rnd s := by
  have hfits : DirFits s.toDir := Policy.reach_fits (fun _ hsize => CAR_policy rnd hsize) (CAR_init_fits cache_size md p adm) hr
  unfold CAR_to_evict
  constructor
  · rintro ⟨fuel, v, hv, -⟩
    by_contra hclear
    rw [if_pos hfull, CAR_to_replace_stuck rnd hclear] at hv
    cases hv
  · rintro ⟨i, o, hi, ho, href⟩
    obtain ⟨s', hev, hloses⟩ := CAR_evict_of_clear rnd req hfits hi ho href
    exact ⟨1, some i, by
      simp [hfull, CAR_to_replace, whileLoop, CAR_to_replace_round_eq, hi, ho, href], i, s'.toDir, rfl, by rw [hev]; rfl, hloses⟩

theorem CAR_to_evict_agrees_of_two : ∃ s, Reach (serve_piece (CAR_ops fun x => x) State.toDir) (fun s a => a.Ok s.toDir)
      (CAR_init 2 false) s ∧ ∃ fuel v, CAR_to_evict (fun x => x) fuel none s = some v ∧
        s.Announces v ((CAR_evict (fun x => x) s { obj_id := 3 }).map State.toDir) := by
  obtain ⟨s, hs, hfull, hclear⟩ : ∃ s,
      runs (fun s (a : Piece) => if a.Ok s.toDir then serve_piece (CAR_ops fun x => x) State.toDir s a else none)
      (CAR_init 2 false) [.get { obj_id := 1 }, .get { obj_id := 2 }] = some s ∧
        s.size .L1_data + s.size .L2_data ≥ s.cache_size ∧ ClearHead (fun x => x) s := by
    decide +kernel
  have hreach := Reach.of_checked hs
  exact ⟨s, hreach, (CAR_to_evict_agrees_iff (fun x => x) 2 false 0 none hreach hfull none { obj_id := 3 }).2 hclear⟩

/-- The one object was hit, and no round clears its reference bit. -/
theorem not_CAR_to_evict_agrees : ¬ ∀ cache_size : Nat, ∀ reqs : List Request, (∀ req ∈ reqs, 1 ≤ req.obj_size) →
    ∀ s, runs (fun s req => (CAR_get (fun x => x) s req).map Prod.fst) (CAR_init cache_size false) reqs = some s →
    s.size .L1_data + s.size .L2_data ≥ s.cache_size → ∀ req, ∃ fuel v,
      CAR_to_evict (fun x => x) fuel none s = some v ∧ s.Announces v ((CAR_evict (fun x => x) s req).map State.toDir) := by
  intro hclaim
  obtain ⟨s, hs, hfull, hset⟩ : ∃ s, runs (fun s req => (CAR_get (fun x => x) s req).map Prod.fst) (CAR_init 1 false)
      [{ obj_id := 1 }, { obj_id := 1 }] = some s ∧ s.size .L1_data + s.size .L2_data ≥ s.cache_size ∧ ¬ ClearHead (fun x => x) s := by
    decide +kernel
  obtain ⟨fuel, v, hv, -⟩ := hclaim 1 _ (by simp) s hs hfull { obj_id := 2 }
  rw [CAR_to_evict, if_pos hfull, CAR_to_replace_stuck _ hset] at hv
  cases hv

end CacheSim.Car
