import CacheSim.Directory.Model

/-!
# The directory invariant

Every operation of the directory replaces one record, so one lemma says what a record more or
less does to the table, the lists and the counters, and the operations follow from it.
-/

namespace CacheSim.Directory

open Lib List Function Dir Obj

/-! ## What every state of the directory keeps -/

def Obj.Ok (o : Obj) : Prop := (o.lru_id = 1 ∨ o.lru_id = 2) ∧ 1 ≤ o.obj_size

structure DirInv (d : Dir) : Prop where
  wf : d.dir.WF Obj.listId
  ok : ∀ i o, d.dir.table i = some o → o.Ok
  size : ∀ k, d.size k = d.dir.total d.charge k
  md : 0 ≤ d.obj_md_size
  occ : d.occupied_byte = d.size .L1_data + d.size .L2_data
  n_obj : d.n_obj = d.dir.total (fun _ => 1) .L1_data + d.dir.total (fun _ => 1) .L2_data

def Dir.share (d : Dir) (k : ListId) (x : Option Obj) : Int := Part.share Obj.listId d.charge k x

def residents (x : Option Obj) : Int :=
  Part.share Obj.listId (fun _ => 1) .L1_data x + Part.share Obj.listId (fun _ => 1) .L2_data x

/-- `d'` is `d` with the record of `i` replaced by `x`, in the table, the lists and the sizes. -/
structure Sets (d d' : Dir) (i : ObjId) (x : Option Obj) : Prop where
  part : Part.Sets Obj.listId d.dir d'.dir i x
  size : ∀ k, d'.size k = d.size k - d.share k (d.dir.table i) + d.share k x
  md : d'.obj_md_size = d.obj_md_size
  cache_size : d'.cache_size = d.cache_size
  occ : d'.occupied_byte = d.occupied_byte
    - (d.share .L1_data (d.dir.table i) + d.share .L2_data (d.dir.table i))
    + (d.share .L1_data x + d.share .L2_data x)
  n_obj : d'.n_obj = d.n_obj - residents (d.dir.table i) + residents x

variable {d d' : Dir} {req : Request} {i : ObjId} {x : Option Obj} {o : Obj}

theorem Dir.charge_eq (h : d'.obj_md_size = d.obj_md_size) : d'.charge = d.charge := by
  funext o
  simp [Dir.charge, h]

section

variable (h : DirInv d)
include h

theorem DirInv.charge_pos (ho : o.Ok) : 1 ≤ d.charge o := by
  have := h.md
  have := ho.2
  simp only [Dir.charge]
  omega

theorem DirInv.sets (hs : Sets d d' i x) (hx : ∀ o, x = some o → o.Ok) : DirInv d' where
  wf := h.wf.sets hs.part
  ok := by
    intro j o hj
    rw [hs.part.table_eq] at hj
    by_cases hji : j = i
    · subst hji
      exact hx o (by simpa using hj)
    · exact h.ok j o (by simpa [update_of_ne hji] using hj)
  size := by
    intro k
    rw [hs.size k, h.size k, charge_eq hs.md, Part.total_sets d.charge h.wf hs.part k]
    rfl
  md := hs.md ▸ h.md
  occ := by
    have := h.occ
    rw [hs.occ, hs.size .L1_data, hs.size .L2_data]
    omega
  n_obj := by
    have := h.n_obj
    rw [hs.n_obj, Part.total_sets _ h.wf hs.part, Part.total_sets _ h.wf hs.part]
    simp only [residents]
    omega

theorem DirInv.size_nonneg (k : ListId) : 0 ≤ d.size k := by
  rw [h.size k]
  apply Part.total_nonneg
  intro j o hj
  have := h.charge_pos (h.ok j o hj)
  omega

theorem DirInv.charge_le_size (hi : d.dir.table i = some o) : d.charge o ≤ d.size o.listId := by
  rw [h.size]
  have := Part.weight_le_total d.charge (fun j r hj => by
    have := h.charge_pos (h.ok j r hj)
    omega) (h.wf.mem_of_table hi)
  simpa [Part.weight, hi] using this

end

variable {k : ListId} {l : List ObjId} {d'' : Dir}

theorem DirInv.list_ne_nil (h : DirInv d) (hk : d.size k ≠ 0) : d.dir.list k ≠ [] :=
  Part.list_ne_nil_of_total d.charge (by rwa [← h.size k])

theorem DirInv.tail_some (h : DirInv d) (hk : d.size k ≠ 0) :
    ∃ i o, d.tail k = some i ∧ d.dir.table i = some o ∧ o.listId = k := by
  have hne := h.list_ne_nil hk
  obtain ⟨o, ho, hl⟩ := h.wf.table_of_mem (getLast_mem hne)
  exact ⟨_, o, getLast?_eq_some_getLast hne, ho, hl⟩

theorem DirInv.head_some (h : DirInv d) (hk : d.dir.list k ≠ []) :
    ∃ i o, d.head k = some i ∧ d.dir.table i = some o ∧ o.listId = k := by
  obtain ⟨o, ho, hl⟩ := h.wf.table_of_mem (head_mem hk)
  exact ⟨_, o, head?_eq_some_head hk, ho, hl⟩

theorem Dir.share_none (k : ListId) : d.share k none = 0 := rfl

theorem Dir.share_some (k : ListId) (o : Obj) :
    d.share k (some o) = if o.listId = k then d.charge o else 0 := rfl

theorem Obj.listId_L1_data : o.listId = .L1_data ↔ o.lru_id = 1 ∧ o.ghost = false := by
  simp only [Obj.listId]
  split_ifs <;> simp_all

theorem Obj.listId_L1_ghost : o.listId = .L1_ghost ↔ o.lru_id = 1 ∧ o.ghost = true := by
  simp only [Obj.listId]
  split_ifs <;> simp_all

theorem Obj.listId_L2_data : o.listId = .L2_data ↔ o.lru_id ≠ 1 ∧ o.ghost = false := by
  simp only [Obj.listId]
  split_ifs <;> simp_all

theorem Obj.listId_L2_ghost : o.listId = .L2_ghost ↔ o.lru_id ≠ 1 ∧ o.ghost = true := by
  simp only [Obj.listId]
  split_ifs <;> simp_all

theorem DirInv.erase_other (h : DirInv d) (hi : d.dir.table i = some o)
    (hk : o.listId ≠ k) : (d.dir.list k).erase i = d.dir.list k := by
  apply erase_of_not_mem
  intro hm
  obtain ⟨o', ho', hl⟩ := h.wf.table_of_mem hm
  rw [hi] at ho'
  cases ho'
  exact hk hl

theorem Obj.Ok.flags (h : o.Ok) : (o.lru_id, o.ghost) = o.listId.flags := by
  rcases h.1 with hl | hl <;> cases hg : o.ghost <;> simp [Obj.listId, ListId.flags, hl, hg]

theorem DirInv.listBytes_eq (h : DirInv d) (k : ListId) : d.size k = d.listBytes k := by
  rw [h.size k]
  simp only [Part.total]
  congr 1
  apply map_congr_left
  intro i _
  cases hi : d.dir.table i <;> simp [Part.weight, hi, Dir.charge]

theorem DirInv.consistent (h : DirInv d) : d.Consistent where
  nodup k := (h.wf k).1
  disjoint _ _ hk := h.wf.disjoint hk
  covers i := by
    constructor
    · intro hi
      obtain ⟨o, ho⟩ := Option.ne_none_iff_exists'.1 hi
      exact ⟨_, h.wf.mem_of_table ho⟩
    · rintro ⟨k, hk⟩ hi
      exact h.wf.not_mem hi k hk
  flags := by
    intro k i hi
    obtain ⟨o, ho, rfl⟩ := h.wf.table_of_mem hi
    exact ⟨o, ho, (h.ok i o ho).flags⟩
  sizes := h.listBytes_eq
  occupied := h.occ

theorem Dir.can_insert_fits (h : d.cache_can_insert_default req = true) : req.obj_size + d.obj_md_size ≤ d.cache_size := by
  cases hadm : d.admissioner <;> simp_all [Dir.cache_can_insert_default]

/-! ## Each operation sets one record -/

theorem Dir.share_resident (o : Obj) :
    d.share .L1_data (some o) + d.share .L2_data (some o) = if o.ghost then 0 else d.charge o := by
  simp only [share_some, listId_L1_data, listId_L2_data]
  by_cases hl : o.lru_id = 1 <;> cases o.ghost <;> simp [hl]

theorem residents_none : residents none = 0 := rfl

theorem residents_some (o : Obj) : residents (some o) = if o.ghost then 0 else 1 := by
  simp only [residents, Part.share, listId_L1_data, listId_L2_data]
  by_cases hl : o.lru_id = 1 <;> cases o.ghost <;> simp [hl]

section

variable (h : DirInv d)
include h

section

variable (hi : d.dir.table i = some o)
include hi

theorem DirInv.sets_of_leave (hx : x = none)
    (htable : d'.dir.table = update d.dir.table i x)
    (hlist : d'.dir.list = update d.dir.list o.listId ((d.dir.list o.listId).erase i))
    (hsize : d'.size = update d.size o.listId (d.size o.listId - d.charge o))
    (hmd : d'.obj_md_size = d.obj_md_size) (hcs : d'.cache_size = d.cache_size)
    (hocc : d'.occupied_byte = d.occupied_byte - (if o.ghost then 0 else d.charge o))
    (hobj : d'.n_obj = d.n_obj - (if o.ghost then 0 else 1)) : Sets d d' i x := by
  subst hx
  refine ⟨⟨htable, ?_⟩, ?_, hmd, hcs, ?_, by simp [hi, hobj, residents_some, residents_none]⟩
  · intro k
    rw [hlist]
    by_cases ha : k = o.listId
    · subst ha
      simp
    · rw [update_of_ne ha, h.erase_other hi (fun he => ha he.symm)]
      simp
  · intro k
    rw [hsize, hi, share_some, share_none]
    by_cases ha : k = o.listId
    · subst ha
      simp
    · rw [update_of_ne ha, if_neg (fun he => ha he.symm)]
      omega
  · rw [hi, share_resident, hocc]
    simp [share_none]

theorem DirInv.sets_of_move {o' : Obj}
    (hsame : o'.obj_size = o.obj_size) (hne : o.listId ≠ o'.listId)
    (hl : l.Perm (i :: d.dir.list o'.listId))
    (htable : d'.dir.table = update d.dir.table i (some o'))
    (hlist : d'.dir.list = update
      (update d.dir.list o.listId ((d.dir.list o.listId).erase i)) o'.listId l)
    (hsize : d'.size = update
      (update d.size o.listId (d.size o.listId - d.charge o)) o'.listId
        (d.size o'.listId + d.charge o))
    (hmd : d'.obj_md_size = d.obj_md_size) (hcs : d'.cache_size = d.cache_size)
    (hocc : d'.occupied_byte = d.occupied_byte - (if o.ghost then 0 else d.charge o)
      + (if o'.ghost then 0 else d.charge o))
    (hobj : d'.n_obj = d.n_obj - (if o.ghost then 0 else 1) + (if o'.ghost then 0 else 1)) :
    Sets d d' i (some o') := by
  have hc : d.charge o' = d.charge o := by simp [Dir.charge, hsame]
  refine ⟨⟨htable, ?_⟩, ?_, hmd, hcs, ?_, by simp only [hi, hobj, residents_some]⟩
  · intro k
    rw [hlist, Option.map_some]
    by_cases hb : k = o'.listId
    · subst hb
      simpa [h.erase_other hi hne] using hl
    · rw [update_of_ne hb, if_neg (by simpa using fun hb' => hb hb'.symm)]
      by_cases ha : k = o.listId
      · subst ha
        simp
      · rw [update_of_ne ha, h.erase_other hi (fun he => ha he.symm)]
        simp
  · intro k
    rw [hsize, hi, share_some, share_some, hc]
    by_cases hb : k = o'.listId
    · subst hb
      simp [hne]
    · have hb' : o'.listId ≠ k := fun he => hb he.symm
      rw [update_of_ne hb]
      by_cases ha : k = o.listId
      · subst ha
        simp [hb']
      · have ha' : o.listId ≠ k := fun he => ha he.symm
        rw [update_of_ne ha]
        simp [ha', hb']
  · rw [hi, share_resident, share_resident, hocc, hc]

theorem DirInv.discard_sets (hg : o.ghost = true) :
    Sets d (d.discard i o) i none := by
  apply h.sets_of_leave hi rfl <;>
    simp [Dir.discard, Dir.remove_obj_from_list, hg, Int.sub_eq_add_neg]

theorem DirInv.drop_sets (hg : o.ghost = false) :
    Sets d (d.drop i o) i none := by
  apply h.sets_of_leave hi rfl <;>
    simp [Dir.drop, Dir.remove_obj_from_list, Dir.charge, hg, Int.sub_eq_add_neg]

end

end

theorem Obj.listId_demoted_ne (hg : o.ghost = false) : o.listId ≠ ({ o with ghost := true } : Obj).listId := by
  by_cases hl : o.lru_id = 1 <;> simp [Obj.listId, hg, hl]

section

variable (h : DirInv d)
include h

section

variable (hi : d.dir.table i = some o)
include hi

theorem DirInv.demote_sets (hg : o.ghost = false) :
    Sets d (d.demote i o) i (some { o with ghost := true }) := by
  have hne := listId_demoted_ne hg
  apply h.sets_of_move hi _ hne (push_perm true i _) <;>
    simp [Dir.demote, Dir.remove_obj_from_list, Dir.link, Dir.cache_evict_base, Dir.charge, hg,
      hne.symm, Int.sub_eq_add_neg]

theorem DirInv.promote_sets (hid : o.listId = .L1_data)
    (at_head reference : Bool) : Sets d (d.promote i o at_head reference) i
      (some { o with lru_id := 2, reference := reference }) := by
  have hg := (listId_L1_data.1 hid).2
  have hid' : ({ o with lru_id := 2, reference := reference } : Obj).listId = .L2_data := by
    simp [Obj.listId, hg]
  apply h.sets_of_move hi _ (by simp [hid, hid']) (push_perm at_head i _) <;>
    simp [Dir.promote, hid, hid', Dir.remove_obj_from_list, Dir.link, Int.sub_eq_add_neg]

theorem DirInv.reorder_sets (reference : Bool)
    (hl : l.Perm (d.dir.list o.listId)) :
    Sets d ((d.set_list o.listId l).set_obj i { o with reference := reference }) i
      (some { o with reference := reference }) := by
  have hshare : ∀ k, d.share k (some { o with reference := reference }) = d.share k (some o) :=
    fun _ => rfl
  refine ⟨⟨by simp, ?_⟩, ?_, by simp, by simp, ?_, ?_⟩
  · intro k
    rw [Option.map_some, show ({ o with reference := reference } : Obj).listId = o.listId from rfl]
    by_cases hb : k = o.listId
    · subst hb
      simpa using hl.trans (perm_cons_erase (h.wf.mem_of_table hi))
    · have hb' : o.listId ≠ k := fun he => hb he.symm
      simp [update_of_ne hb, hb', h.erase_other hi hb']
  · intro k
    rw [hi, hshare]
    simp
  · rw [hi, hshare, hshare]
    simp
  · rw [hi, residents_some, residents_some]
    simp

end

theorem DirInv.enter_sets (req : Request) (hi : d.dir.table req.obj_id = none)
    (lru_id : Nat) (at_head : Bool) : Sets d (d.enter req lru_id at_head) req.obj_id
      (some { obj_size := req.obj_size, lru_id := lru_id }) := by
  set o : Obj := { obj_size := req.obj_size, lru_id := lru_id } with ho
  have hshare : ∀ k, d.share k (some o) = if o.listId = k then req.obj_size + d.obj_md_size else 0 :=
    fun _ => rfl
  refine ⟨⟨?_, ?_⟩, ?_, ?_, ?_, ?_, ?_⟩
  · simp [Dir.enter, ← ho, Dir.cache_insert_base, Dir.link]
  · intro k
    rw [erase_of_not_mem (h.wf.not_mem hi k), Option.map_some]
    by_cases hb : k = o.listId
    · subst hb
      simpa [Dir.enter, ← ho, Dir.cache_insert_base, Dir.link] using push_perm at_head req.obj_id _
    · have hb' : o.listId ≠ k := fun he => hb he.symm
      simp [Dir.enter, ← ho, Dir.cache_insert_base, Dir.link, update_of_ne hb, hb']
  · intro k
    rw [hi, hshare, share_none]
    by_cases hb : k = o.listId
    · subst hb
      simp [Dir.enter, ← ho, Dir.cache_insert_base, Dir.link]
    · have hb' : o.listId ≠ k := fun he => hb he.symm
      simp [Dir.enter, ← ho, Dir.cache_insert_base, Dir.link, update_of_ne hb, hb']
  · simp [Dir.enter, Dir.cache_insert_base, Dir.link]
  · simp [Dir.enter, Dir.cache_insert_base, Dir.link]
  · rw [hi, share_none, share_none, share_resident]
    simp [Dir.enter, ho, Dir.cache_insert_base, Dir.link, Dir.charge]
  · rw [hi, residents_none, residents_some]
    simp [Dir.enter, Dir.cache_insert_base, Dir.link]

end

/-! ## What leads from one state to the next -/

/-- A step that brings no object in keeps the invariant, the configuration and the absent ids. -/
structure Keeps (d d' : Dir) : Prop where
  inv : DirInv d'
  md : d'.obj_md_size = d.obj_md_size
  cache_size : d'.cache_size = d.cache_size
  occ : d'.occupied_byte ≤ d.occupied_byte
  absent : ∀ j, d.dir.table j = none → d'.dir.table j = none

theorem Keeps.trans (h : Keeps d d') (h' : Keeps d' d'') : Keeps d d'' where
  inv := h'.inv
  md := h'.md.trans h.md
  cache_size := h'.cache_size.trans h.cache_size
  occ := h'.occ.trans h.occ
  absent j hj := h'.absent j (h.absent j hj)

theorem DirInv.count_req_keeps (h : DirInv d) : Keeps d d.count_req :=
  ⟨{ h with }, rfl, rfl, le_rfl, fun _ hj => hj⟩

theorem Sets.absent (hs : Sets d d' i x) (hi : d.dir.table i = some o) (j : ObjId)
    (hj : d.dir.table j = none) : d'.dir.table j = none := by
  have hji : j ≠ i := by
    rintro rfl
    simp [hi] at hj
  rw [hs.part.table_eq, update_of_ne hji, hj]

theorem Sets.resident_other (hs : Sets d d' i x) {j : ObjId} (hj : j ≠ i) : d'.Resident j ↔ d.Resident j := by
  unfold Dir.Resident
  rw [hs.part.table_eq, update_of_ne hj]

theorem Sets.resident_iff (hs : Sets d d' i x) (hx : (∃ o, x = some o ∧ o.ghost = false) ↔ d.Resident i) (j : ObjId) :
    d'.Resident j ↔ d.Resident j := by
  by_cases hj : j = i
  · rw [hj, ← hx]
    unfold Dir.Resident
    rw [hs.part.table_eq, update_self]
  · exact hs.resident_other hj

structure Dir.LosesObj (d d' : Dir) (i : ObjId) : Prop where
  resident : d.Resident i
  others : ∀ j, d'.Resident j ↔ d.Resident j ∧ j ≠ i

def Dir.Announces (d : Dir) (announced : Option ObjId) (evicted : Option Dir) : Prop :=
  ∃ v d', announced = some v ∧ evicted = some d' ∧ d.LosesObj d' v

theorem Dir.LosesObj.loses (h : d.LosesObj d' i) : d.Loses d' := ⟨i, h.resident, h.others⟩

theorem Sets.losesObj (hs : Sets d d' i x) (hi : d.Resident i) (hx : ∀ o, x = some o → o.ghost = true) : d.LosesObj d' i := by
  refine ⟨hi, fun j => ?_⟩
  by_cases hj : j = i
  · subst hj
    unfold Dir.Resident
    rw [hs.part.table_eq, update_self]
    constructor
    · rintro ⟨o, ho, hg⟩
      rw [hx o ho] at hg
      cases hg
    · rintro ⟨-, hne⟩
      exact absurd rfl hne
  · rw [hs.resident_other hj]
    simp [hj]

theorem Dir.LosesObj.trans_same (h : d.LosesObj d' i) (h' : ∀ j, d''.Resident j ↔ d'.Resident j) :
    d.LosesObj d'' i := ⟨h.resident, fun j => (h' j).trans (h.others j)⟩

theorem Dir.LosesObj.same_trans (h : ∀ j, d'.Resident j ↔ d.Resident j) (h' : d'.LosesObj d'' i) : d.LosesObj d'' i := by
  refine ⟨(h i).1 h'.resident, fun j => ?_⟩
  rw [h'.others j, h j]

theorem Dir.Loses.trans_same (h : d.Loses d') (h' : ∀ j, d''.Resident j ↔ d'.Resident j) : d.Loses d'' := by
  obtain ⟨i, hi, hothers⟩ := h
  exact ⟨i, hi, fun j => (h' j).trans (hothers j)⟩

theorem Dir.Loses.same_trans (h : ∀ j, d'.Resident j ↔ d.Resident j) (h' : d'.Loses d'') : d.Loses d'' := by
  obtain ⟨i, hi, hothers⟩ := h'
  refine ⟨i, (h i).1 hi, fun j => ?_⟩
  rw [hothers j, h j]

section

variable (h : DirInv d)
include h

section

variable (hi : d.dir.table i = some o)
include hi

theorem DirInv.discard_resident (hg : o.ghost = true) (j : ObjId) :
    (d.discard i o).Resident j ↔ d.Resident j := by
  apply (h.discard_sets hi hg).resident_iff
  simp [Dir.Resident, hi, hg]

theorem DirInv.demote_loses (hg : o.ghost = false) :
    d.LosesObj (d.demote i o) i := by
  apply (h.demote_sets hi hg).losesObj ⟨o, hi, hg⟩
  rintro o' ⟨⟩
  rfl

theorem DirInv.drop_loses (hg : o.ghost = false) :
    d.LosesObj (d.drop i o) i := (h.drop_sets hi hg).losesObj ⟨o, hi, hg⟩ (fun _ hx => nomatch hx)

end

theorem DirInv.occupied_pos (hi : d.Resident i) : 0 < d.occupied_byte := by
  obtain ⟨o, ho, hg⟩ := hi
  have hcharge := h.charge_pos (h.ok i o ho)
  have hle := h.charge_le_size ho
  have h1 := h.size_nonneg .L1_data
  have h2 := h.size_nonneg .L2_data
  have hocc := h.occ
  by_cases hl : o.lru_id = 1
  · rw [listId_L1_data.2 ⟨hl, hg⟩] at hle
    omega
  · rw [listId_L2_data.2 ⟨hl, hg⟩] at hle
    omega

end

theorem Obj.Ok.ghosted (h : o.Ok) : ({ o with ghost := true } : Obj).Ok := h

section

variable (h : DirInv d)
include h

section

variable (hi : d.dir.table i = some o)
include hi

theorem DirInv.discard_keeps (hg : o.ghost = true) :
    Keeps d (d.discard i o) ∧ (d.discard i o).occupied_byte = d.occupied_byte := by
  have hs := h.discard_sets hi hg
  have hocc : (d.discard i o).occupied_byte = d.occupied_byte := by
    rw [hs.occ, hi, share_resident]
    simp [hg, share_none]
  exact ⟨⟨h.sets hs (by simp), hs.md, hs.cache_size, hocc.le, hs.absent hi⟩, hocc⟩

theorem DirInv.drop_keeps (hg : o.ghost = false) :
    Keeps d (d.drop i o) ∧ (d.drop i o).occupied_byte < d.occupied_byte := by
  have hs := h.drop_sets hi hg
  have hpos := h.charge_pos (h.ok i o hi)
  have hocc : (d.drop i o).occupied_byte = d.occupied_byte - d.charge o := by
    rw [hs.occ, hi, share_resident]
    simp [hg, share_none]
  exact ⟨⟨h.sets hs (by simp), hs.md, hs.cache_size, by omega, hs.absent hi⟩, by omega⟩

theorem DirInv.drop_removed (hg : o.ghost = false) : d.Removed (d.drop i o) true i := by
  have hs := h.drop_sets hi hg
  have hinv := (h.drop_keeps hi hg).1.inv
  have habs : (d.drop i o).dir.table i = none := by simp [hs.part.table_eq]
  refine ⟨by simp [Dir.Resident, hi, hg], habs, hinv.wf.not_mem habs, ?_, fun k =>
    ⟨hinv.listBytes_eq k, hinv.size_nonneg k⟩⟩
  intro j hj
  refine ⟨by rw [hs.part.table_eq, update_of_ne hj], fun k => ?_⟩
  rw [(hs.part.list_perm k).mem_iff, mem_append, mem_erase_of_ne hj]
  simp

end

theorem DirInv.absent_removed (hi : d.dir.table i = none) : d.Removed d false i where
  returns := by simp [Dir.Resident, hi]
  absent := hi
  unlisted := h.wf.not_mem hi
  others := by simp
  sizes k := ⟨h.listBytes_eq k, h.size_nonneg k⟩

theorem DirInv.remove_removed_iff (i : ObjId) : d.Removed (d.remove i).1 (d.remove i).2 i ↔ ¬ d.Ghost i := by
  cases hi : d.dir.table i with
  | none => simpa [Dir.remove, hi, Dir.Ghost] using h.absent_removed hi
  | some o =>
    cases hg : o.ghost with
    | false => simpa [Dir.remove, hi, hg, Dir.Ghost] using h.drop_removed hi hg
    | true =>
      simp only [Dir.Ghost, hi, Option.some.injEq, exists_eq_left', hg, not_true_eq_false, iff_false]
      intro hr
      have habs := hr.absent
      simp [Dir.remove, hi, hg, Dir.remove_obj_from_list] at habs

theorem DirInv.remove_keeps (hi : ¬ d.Ghost i) : Keeps d (d.remove i).1 := by
  cases ht : d.dir.table i with
  | none => simpa [Dir.remove, ht] using ⟨h, rfl, rfl, le_rfl, fun _ hj => hj⟩
  | some o =>
    have hg : o.ghost = false := by
      simpa [Dir.Ghost, ht] using hi
    simpa [Dir.remove, ht, hg] using (h.drop_keeps ht hg).1

section

variable (hi : d.dir.table i = some o)
include hi

theorem DirInv.demote_keeps (hg : o.ghost = false) :
    Keeps d (d.demote i o) ∧ (d.demote i o).occupied_byte < d.occupied_byte := by
  have hs := h.demote_sets hi hg
  have hok := h.ok i o hi
  have hpos := h.charge_pos hok
  have hocc : (d.demote i o).occupied_byte = d.occupied_byte - d.charge o := by
    rw [hs.occ, hi, share_resident, share_resident]
    simp [hg]
  refine ⟨⟨h.sets hs ?_, hs.md, hs.cache_size, by omega, hs.absent hi⟩, by omega⟩
  rintro o' ⟨⟩
  exact hok.ghosted

theorem DirInv.promote_keeps (hid : o.listId = .L1_data)
    (at_head reference : Bool) : Keeps d (d.promote i o at_head reference) := by
  have hs := h.promote_sets hi hid at_head reference
  have hg := (listId_L1_data.1 hid).2
  refine ⟨h.sets hs ?_, hs.md, hs.cache_size, ?_, hs.absent hi⟩
  · rintro o' ⟨⟩
    exact ⟨Or.inr rfl, (h.ok i o hi).2⟩
  · rw [hs.occ, hi, share_resident, share_resident]
    simp [Dir.charge]

theorem DirInv.reorder_keeps (reference : Bool)
    (hl : l.Perm (d.dir.list o.listId)) :
    Keeps d ((d.set_list o.listId l).set_obj i { o with reference := reference }) := by
  have hs := h.reorder_sets hi reference hl
  refine ⟨h.sets hs ?_, by simp, by simp, by simp, hs.absent hi⟩
  rintro o' ⟨⟩
  exact h.ok i o hi

theorem DirInv.move_keeps (at_head : Bool) : Keeps d (d.move at_head o.listId i) := by
  have hl : (push at_head i ((d.dir.list o.listId).erase i)).Perm (d.dir.list o.listId) :=
    (push_perm _ _ _).trans (perm_cons_erase (h.wf.mem_of_table hi)).symm
  have hk := h.reorder_keeps hi o.reference hl
  -- writing the same record back changes nothing
  have heq : (d.set_list o.listId (push at_head i ((d.dir.list o.listId).erase i))).set_obj i o =
      d.move at_head o.listId i := by
    simp [Dir.move, Dir.set_obj, Dir.set_list, ← hi]
  rwa [heq] at hk

end

end

theorem Dir.enter_occupied_byte (req : Request) (lru_id : Nat) (at_head : Bool) :
    (d.enter req lru_id at_head).occupied_byte = d.occupied_byte + req.obj_size + d.obj_md_size := by
  simp [Dir.enter, Dir.cache_insert_base, Dir.link, Int.add_assoc]

theorem DirInv.enter_inv (h : DirInv d) (req : Request) (hi : d.dir.table req.obj_id = none)
    (hsize : 1 ≤ req.obj_size) {lru_id : Nat} (hl : lru_id = 1 ∨ lru_id = 2) (at_head : Bool) :
    DirInv (d.enter req lru_id at_head) := by
  apply h.sets (h.enter_sets req hi lru_id at_head)
  rintro o' ⟨⟩
  exact ⟨hl, hsize⟩

structure DirFits (d : Dir) : Prop where
  inv : DirInv d
  fits : d.occupied_byte ≤ d.cache_size

theorem Keeps.dirFits (h : Keeps d d') (hd : DirFits d) : DirFits d' :=
  ⟨h.inv, (h.occ.trans hd.fits).trans h.cache_size.ge⟩

structure Policy {σ : Type} (ops : CacheOps σ) (dir : σ → Dir) (req : Request) : Prop where
  occupied : ∀ s, ops.get_occupied_byte s = (dir s).occupied_byte
  md : ∀ s, ops.obj_md_size s = (dir s).obj_md_size
  cache_size : ∀ s, ops.cache_size s = (dir s).cache_size
  can_insert : ∀ s, ops.can_insert s req = some (s, (dir s).cache_can_insert_default req)
  find : ∀ s, DirInv (dir s) → ∃ s' hit, ops.find (ops.count_req s) req = some (s', hit) ∧
    Keeps (dir s) (dir s') ∧ (hit = false → (dir s').dir.table req.obj_id = none)
  evict : ∀ s, DirFits (dir s) → 0 < (dir s).occupied_byte →
    req.obj_size + (dir s).obj_md_size ≤ (dir s).cache_size → ∃ s', ops.evict s req = some s' ∧
      Keeps (dir s) (dir s') ∧ (dir s').occupied_byte < (dir s).occupied_byte
  insert : ∀ s, DirInv (dir s) → (dir s).dir.table req.obj_id = none → ∃ s', ops.insert s req = some s' ∧
    DirInv (dir s') ∧ (dir s').cache_size = (dir s).cache_size ∧
    (dir s').occupied_byte = (dir s).occupied_byte + req.obj_size + (dir s).obj_md_size

theorem Policy.get_spec {σ : Type} {ops : CacheOps σ} {dir : σ → Dir} (hp : Policy ops dir req)
    {s : σ} (hs : DirFits (dir s)) : ∃ s' hit,
      ops.cache_get_base (fun s => (dir s).occupied_byte.toNat) s req = some (s', hit) ∧
      DirFits (dir s') ∧ (dir s').cache_size = (dir s).cache_size := by
  let Same : σ → Prop := fun t => DirFits (dir t) ∧ (dir t).cache_size = (dir s).cache_size
  let Miss : σ → Prop := fun t => Same t ∧ (dir t).dir.table req.obj_id = none
  let Ready : σ → Prop := fun t =>
    Miss t ∧ req.obj_size + (dir t).obj_md_size ≤ (dir t).cache_size
  refine CacheOps.cache_get_base_total Same Miss Ready Same
    (fun s => (dir s).occupied_byte.toNat) (fun _ _ => le_rfl) ?_ ?_ ?_ ?_ ⟨hs, rfl⟩
  · rintro t ⟨ht, hcs⟩
    obtain ⟨t', hit, hf, hk, hmiss⟩ := hp.find t ht.inv
    have hsame : Same t' := ⟨hk.dirFits ht, hk.cache_size.trans hcs⟩
    refine ⟨t', hit, hf, ?_⟩
    cases hit with
    | true => simpa using hsame
    | false => simpa using ⟨hsame, hmiss rfl⟩
  · intro t ht
    refine ⟨t, _, hp.can_insert t, ?_⟩
    split_ifs with hadm
    · exact ⟨ht, can_insert_fits hadm⟩
    · exact ht.1
  · rintro t ⟨⟨⟨ht, hcs⟩, habs⟩, hfits⟩ hfull
    have hpos : 0 < (dir t).occupied_byte := by
      rw [CacheOps.full_for_iff, hp.occupied, hp.md, hp.cache_size] at hfull
      omega
    obtain ⟨t', he, hk, hlt⟩ := hp.evict t ht hpos hfits
    refine ⟨t', he, ⟨⟨⟨hk.dirFits ht, hk.cache_size.trans hcs⟩, hk.absent _ habs⟩, ?_⟩, by omega⟩
    rw [hk.md, hk.cache_size]
    exact hfits
  · rintro t ⟨⟨⟨ht, hcs⟩, habs⟩, -⟩ hroom
    obtain ⟨t', hi, hinv, hcs', hocc⟩ := hp.insert t ht.inv habs
    rw [CacheOps.full_for_false_iff, hp.occupied, hp.md, hp.cache_size] at hroom
    exact ⟨t', hi, ⟨hinv, by omega⟩, hcs'.trans hcs⟩

end CacheSim.Directory
