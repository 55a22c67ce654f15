import CacheSim.Cacheus.Proofs

/-!
# SR-LRU with objects of every size

Nothing is said of what has room. An object leaves R and SR only when it is evicted or removed, and the history knows the frequency
of each of its entries.
-/

namespace CacheSim.Cacheus

open Lib Option Lru

variable {μ : Type} {l l' : Lru μ} {s s' : SrLru} {req : Request} {id x : ObjId}

/-! ## One list -/

theorem LRU_evict_eq (h : l.LRU_evict = some l') : ∃ e, l.LRU_to_evict = some e ∧ l.q.lookup e.1 = some e.2 ∧
    l' = (l.LRU_remove e.1).1 := by
  obtain ⟨e, he, h⟩ := bind_eq_some_iff.1 h
  cases h
  have hlook := Fifo.lookup_to_evict he
  refine ⟨e, he, hlook, ?_⟩
  unfold Lru.LRU_remove Fifo.FIFO_remove
  rw [hlook]

theorem mem_set_md {o : FifoObj μ} {md : μ} : x ∈ (l.set_md id o md).q ↔ x ∈ l.q := AList.mem_replace

structure Sized (l : Lru μ) : Prop where
  md : 0 ≤ l.obj_md_size
  size : ∀ x o, l.q.lookup x = some o → 0 ≤ o.obj_size
  occupied : (l.q.weigh fun _ o => l.charge o) ≤ l.occupied_byte

theorem Sized.init (K : Int) (consider_obj_metadata : Bool) :
    Sized { cache_size := K, obj_md_size := if consider_obj_metadata then 16 else 0 : Lru μ } where
  md := by cases consider_obj_metadata <;> simp
  size _ _ ho := nomatch ho
  occupied := le_rfl

section

variable (h : Sized l)
include h

theorem Sized.charge {o : FifoObj μ} (ho : l.q.lookup x = some o) : 0 ≤ l.charge o :=
  Int.add_nonneg (h.size x o ho) h.md

theorem Sized.nonneg : 0 ≤ l.occupied_byte :=
  (Table.weigh_nonneg fun _ _ ho => h.charge ho).trans h.occupied

theorem Sized.resize (K : Int) : Sized { l with cache_size := K } := { h with }

theorem Sized.of_moved (hm : Lru.Moved l l') : Sized l' := by
  refine ⟨hm.obj_md_size ▸ h.md, fun x o ho => h.size x o ((hm.lookup x).symm.trans ho), ?_⟩
  have hcharge : (l'.q.weigh fun _ o => l'.charge o) = l'.q.weigh fun _ o => l.charge o := by
    unfold Fifo.charge
    rw [hm.obj_md_size]
  have hsame : Stock (fun x => (l.q.lookup x).map l.charge) (l'.q.weigh fun _ o => l.charge o) := by
    simpa only [hm.lookup] using Stock.of_table l'.q l.charge
  rw [hcharge, hm.occupied_byte, hsame.unique (Stock.of_table l.q l.charge)]
  exact h.occupied

theorem Sized.remove (id : ObjId) : Sized (l.LRU_remove id).1 := by
  have hsize : ∀ x o, (l.LRU_remove id).1.q.lookup x = some o → 0 ≤ o.obj_size := by
    intro x o ho
    rw [Lru.LRU_remove, Fifo.lookup_FIFO_remove] at ho
    split_ifs at ho
    exact h.size x o ho
  rcases hid : l.q.lookup id with _ | o
  · have hsame : (l.LRU_remove id).1 = l := by
      unfold Lru.LRU_remove Fifo.FIFO_remove
      rw [hid]
    rw [hsame]
    exact h
  · have hgone : (l.LRU_remove id).1 = l.cache_remove_obj_base id o := by
      unfold Lru.LRU_remove Fifo.FIFO_remove
      rw [hid]
    rw [hgone] at hsize ⊢
    refine ⟨h.md, hsize, ?_⟩
    have hocc := h.occupied
    show Table.weigh (fun _ o => l.charge o) (l.q.erase id) ≤ l.occupied_byte - l.charge o
    rw [Table.weigh_erase _ hid]
    omega

theorem Sized.insert (hsize : 0 ≤ req.obj_size) (md : μ) : Sized (l.LRU_insert req md) := by
  refine ⟨h.md, fun x o ho => ?_, ?_⟩
  · rcases eq_or_ne x req.obj_id with rfl | hne
    · cases (lookup_LRU_insert_self req md).symm.trans ho
      exact hsize
    · exact h.size x o ((lookup_LRU_insert_ne req md hne).symm.trans ho)
  · have hocc := h.occupied
    have hleft : Table.weigh (fun _ o => l.charge o) (l.q.erase req.obj_id) ≤ Table.weigh (fun _ o => l.charge o) l.q := by
      rcases hid : l.q.lookup req.obj_id with _ | o
      · rw [Table.erase_of_notMem (AList.lookup_eq_none.1 hid)]
      · have hcharge := h.charge hid
        rw [Table.weigh_erase _ hid]
        omega
    show Table.weigh (fun _ o => l.charge o) (l.q.insert req.obj_id { obj_size := req.obj_size, md := md }) ≤
      l.occupied_byte + (req.obj_size + l.obj_md_size)
    rw [Table.weigh_insert]
    show (req.obj_size + l.obj_md_size) + _ ≤ _
    omega

theorem Sized.set_md {o : FifoObj μ} (ho : l.q.lookup id = some o) (md : μ) : Sized (l.set_md id o md) := by
  refine ⟨h.md, fun x p hp => ?_, ?_⟩
  · rw [Fifo.lookup_set_md ho] at hp
    split_ifs at hp
    · cases hp
      exact h.size id o ho
    · exact h.size x p hp
  · have hocc := h.occupied
    show Table.weigh (fun _ o => l.charge o) (l.q.replace id { o with md := md }) ≤ l.occupied_byte
    rw [Table.weigh_replace _ ho]
    show _ - l.charge o + l.charge o ≤ _
    omega

end

/-! ## R and SR -/

structure SizedLists (s : SrLru) : Prop where
  R : Sized s.R_list
  SR : Sized s.SR_list

structure Shifts (s s' : SrLru) : Prop where
  sized : SizedLists s'
  holds : ∀ x, s.holds x → s'.holds x
  H_list : s'.H_list = s.H_list

theorem Shifts.refl (h : SizedLists s) : Shifts s s := ⟨h, fun _ hx => hx, rfl⟩

theorem Shifts.trans {s'' : SrLru} (h1 : Shifts s s') (h2 : Shifts s' s'') : Shifts s s'' :=
  ⟨h2.sized, fun x hx => h2.holds x (h1.holds x hx), h2.H_list.trans h1.H_list⟩

section

variable (hs : SizedLists s)
include hs

theorem demote_shifts (h : demote s = some s') : Shifts s s' := by
  obtain ⟨e, he, h⟩ := bind_eq_some_iff.1 h
  obtain ⟨R_list, hR, h⟩ := bind_eq_some_iff.1 h
  cases h
  obtain ⟨e', he', hlook, rfl⟩ := LRU_evict_eq hR
  cases he.symm.trans he'
  refine ⟨⟨hs.R.remove e.1, hs.SR.insert (hs.R.size e.1 e.2 hlook) _⟩, fun x hx => ?_, rfl⟩
  rcases hx with hx | hx
  · by_cases hxe : x = e.1
    · exact .inr ((mem_LRU_insert _).2 (.inl hxe))
    · exact .inl (mem_LRU_remove.2 ⟨hxe, hx⟩)
  · exact .inr ((mem_LRU_insert _).2 (.inr hx))

theorem demote_loop_shifts {cond : SrLru → Bool} {n : Nat} (h : whileLoop cond demote n s = some s') : Shifts s s' :=
  (whileLoop_inv (fun u => Shifts s u) (fun _ _ hu _ hd => hu.trans (demote_shifts hu.sized hd)) n s s' (.refl hs) h).1

theorem move_to_R_shifts {o : FifoObj Md} (ho : s.SR_list.q.lookup req.obj_id = some o)
    (h : move_to_R s req o = some s') : Shifts s s' := by
  have hfirst : Shifts s { s with
      R_list := s.R_list.LRU_insert (copy_cache_obj_to_request ⟨req.obj_id, o⟩) {}
      SR_list := (s.SR_list.LRU_remove req.obj_id).1 } := by
    refine ⟨⟨hs.R.insert (hs.SR.size _ _ ho) _, hs.SR.remove _⟩, fun x hx => ?_, rfl⟩
    rcases hx with hx | hx
    · exact .inl ((mem_LRU_insert _).2 (.inr hx))
    · by_cases hxe : x = req.obj_id
      · exact .inl ((mem_LRU_insert _).2 (.inl hxe))
      · exact .inr (mem_LRU_remove.2 ⟨hxe, hx⟩)
  exact hfirst.trans (demote_loop_shifts hfirst.sized h)

theorem adjusted_shifts {o : FifoObj Md} (ho : s.R_list.q.lookup id = some o) (md : Md)
    (R_size SR_size C_demoted : Int) : Shifts s { s with
      SR_list := { s.SR_list with cache_size := SR_size }
      R_list := { s.R_list.set_md id o md with cache_size := R_size }
      C_demoted := C_demoted } :=
  ⟨⟨(hs.R.set_md ho md).resize _, hs.SR.resize _⟩, fun _ hx => hx.imp_left mem_set_md.2, rfl⟩

theorem grow_R_shifts (h : grow_R s id = some s') : Shifts s s' := by
  obtain ⟨o, ho, h⟩ := bind_eq_some_iff.1 h
  split_ifs at h
  · obtain ⟨d, -, h⟩ := bind_eq_some_iff.1 h
    cases h
    exact adjusted_shifts hs ho _ _ _ _
  · cases h
    exact .refl hs

theorem grow_SR_shifts (h : grow_SR s id = some s') : Shifts s s' := by
  obtain ⟨o, ho, h⟩ := bind_eq_some_iff.1 h
  split_ifs at h
  · obtain ⟨d, -, h⟩ := bind_eq_some_iff.1 h
    cases h
    exact adjusted_shifts hs ho _ _ _ _
  · cases h
    exact .refl hs

theorem SR_LRU_find_shifts {hit : Bool} (h : SR_LRU_find s req true = some (s', hit)) :
    Shifts s s' ∧ (hit = false → ¬ s.holds req.obj_id) := by
  obtain ⟨hR, hobjR⟩ := LRU_find_moved s.R_list req
  obtain ⟨hSR, hobjSR⟩ := LRU_find_moved s.SR_list req
  unfold SR_LRU_find at h
  dsimp only at h
  rw [hobjR, hobjSR] at h
  have hmoved : Shifts s { s with R_list := (s.R_list.LRU_find req true).1, SR_list := (s.SR_list.LRU_find req true).1 } :=
    ⟨⟨hs.R.of_moved hR, hs.SR.of_moved hSR⟩, fun x hx => hx.imp hR.mem.2 hSR.mem.2, rfl⟩
  rw [SrLru.holds_iff]
  rcases hlookR : s.R_list.q.lookup req.obj_id with _ | obj_R
  · rcases hlookSR : s.SR_list.q.lookup req.obj_id with _ | obj_SR
    · rw [hlookR, hlookSR] at h
      cases h
      exact ⟨hmoved, fun _ => by simp⟩
    · rw [hlookR, hlookSR] at h
      obtain ⟨s1, hmove, h⟩ := bind_eq_some_iff.1 h
      obtain ⟨s2, hgrow, h⟩ := bind_eq_some_iff.1 h
      cases h
      have hfirst := hmoved.trans (move_to_R_shifts hmoved.sized ((hSR.lookup _).trans hlookSR) hmove)
      exact ⟨hfirst.trans (grow_R_shifts hfirst.sized hgrow), fun hhit => by cases hhit⟩
  · rcases hlookSR : s.SR_list.q.lookup req.obj_id with _ | obj_SR
    · rw [hlookR, hlookSR] at h
      cases h
      exact ⟨hmoved, fun hhit => by cases hhit⟩
    · rw [hlookR, hlookSR] at h
      obtain ⟨s2, hgrow, h⟩ := bind_eq_some_iff.1 h
      cases h
      exact ⟨hmoved.trans (grow_R_shifts hmoved.sized hgrow), fun hhit => by cases hhit⟩

end

/-! ## The history -/

def Noted (h : Lru Md) : Prop := ∀ x o, h.q.lookup x = some o → 0 ≤ o.md.freq

theorem Noted.insert {h : Lru Md} (hh : Noted h) (req : Request) {md : Md} (hmd : 0 ≤ md.freq) : Noted (h.LRU_insert req md) := by
  intro x o ho
  rcases eq_or_ne x req.obj_id with rfl | hne
  · cases (lookup_LRU_insert_self req md).symm.trans ho
    exact hmd
  · exact hh x o ((lookup_LRU_insert_ne req md hne).symm.trans ho)

theorem Noted.remove {h : Lru Md} (hh : Noted h) (id : ObjId) : Noted (h.LRU_remove id).1 := by
  intro x o ho
  rw [Lru.LRU_remove, Fifo.lookup_FIFO_remove] at ho
  split_ifs at ho
  exact hh x o ho

theorem Noted.set_md {h : Lru Md} (hh : Noted h) {o : FifoObj Md} (ho : h.q.lookup id = some o) {md : Md} (hmd : 0 ≤ md.freq) :
    Noted (h.set_md id o md) := by
  intro x p hp
  rw [Fifo.lookup_set_md ho] at hp
  split_ifs at hp
  · cases hp
    exact hmd
  · exact hh x p hp

structure Kept (s : SrLru) : Prop where
  sized : SizedLists s
  noted : Noted s.H_list

structure Drops (id : ObjId) (s s' : SrLru) : Prop where
  kept : Kept s'
  holds : ∀ x ≠ id, s.holds x → s'.holds x

theorem trim_history_kept (hs : Kept s) (h : trim_history s = some s') : Kept s' ∧ ∀ x, s.holds x → s'.holds x := by
  obtain ⟨H_list, hloop, rfl⟩ := map_eq_some_iff.1 h
  refine ⟨⟨⟨hs.sized.R, hs.sized.SR⟩, ?_⟩, fun _ hx => hx⟩
  refine (whileLoop_inv (fun l : Lru Md => Noted l) (fun l l' hl _ hevict => ?_) _ _ _ hs.noted hloop).1
  obtain ⟨e, -, -, rfl⟩ := LRU_evict_eq hevict
  exact hl.remove e.1

theorem Kept.remember (h : Kept s) (req_local : Request) (md history_md : Md) (hfreq : 0 ≤ history_md.freq) :
    Kept (remember s req_local md history_md) :=
  ⟨⟨h.sized.R, h.sized.SR⟩, h.noted.insert req_local hfreq⟩

theorem Drops.trim {s'' : SrLru} (h : Drops id s s') (htrim : trim_history s' = some s'') : Drops id s s'' := by
  obtain ⟨hkept, hholds⟩ := trim_history_kept h.kept htrim
  exact ⟨hkept, fun x hne hx => hholds x (h.holds x hne hx)⟩

theorem Kept.drop_R (h : Kept s) (id : ObjId) : Drops id s { s with R_list := (s.R_list.LRU_remove id).1 } :=
  ⟨⟨⟨h.sized.R.remove id, h.sized.SR⟩, h.noted⟩, fun _ hne hx => hx.imp_left fun hx => mem_LRU_remove.2 ⟨hne, hx⟩⟩

theorem Kept.drop_SR (h : Kept s) (id : ObjId) : Drops id s { s with SR_list := (s.SR_list.LRU_remove id).1 } :=
  ⟨⟨⟨h.sized.R, h.sized.SR.remove id⟩, h.noted⟩, fun _ hne hx => hx.imp_right fun hx => mem_LRU_remove.2 ⟨hne, hx⟩⟩

theorem SR_LRU_evict_drops (hs : Kept s) (h : SR_LRU_evict s = some s') : ∃ e, SR_LRU_to_evict s = some e ∧ Drops e.1 s s' := by
  have hSR := hs.sized.SR.nonneg
  obtain ⟨e, he, h⟩ := bind_eq_some_iff.1 h
  refine ⟨e, he, ?_⟩
  dsimp only at h
  have hremembered := hs.remember (copy_cache_obj_to_request e) e.2.md
    { new_obj := e.2.md.new_obj, demoted := e.2.md.demoted } le_rfl
  unfold SR_LRU_to_evict at he
  split_ifs at h with hocc
  · obtain ⟨s1, h1, htrim⟩ := bind_eq_some_iff.1 h
    obtain ⟨SR_list, hevict, rfl⟩ := map_eq_some_iff.1 h1
    obtain ⟨e', he', -, rfl⟩ := LRU_evict_eq hevict
    have hne : s.SR_list.occupied_byte ≠ 0 := ne_of_gt hocc
    rw [if_neg hne] at he
    cases he.symm.trans he'
    have hdrop := hremembered.drop_SR e.1
    exact Drops.trim ⟨hdrop.kept, hdrop.holds⟩ htrim
  · obtain ⟨s1, h1, htrim⟩ := bind_eq_some_iff.1 h
    obtain ⟨R_list, hevict, rfl⟩ := map_eq_some_iff.1 h1
    obtain ⟨e', he', -, rfl⟩ := LRU_evict_eq hevict
    have hzero : s.SR_list.occupied_byte = 0 := le_antisymm (not_lt.1 hocc) hSR
    rw [if_pos hzero] at he
    cases he.symm.trans he'
    have hdrop := hremembered.drop_R e.1
    exact Drops.trim ⟨hdrop.kept, hdrop.holds⟩ htrim

theorem SR_LRU_remove_drops {found : Bool} (hs : Kept s) (h : SR_LRU_remove s id = some (s', found)) : Drops id s s' := by
  unfold SR_LRU_remove at h
  rcases hR : s.R_list.q.lookup id with _ | obj
  · rcases hSR : s.SR_list.q.lookup id with _ | obj
    · rw [hR, hSR] at h
      cases h
      exact ⟨hs, fun _ _ hx => hx⟩
    · rw [hR, hSR] at h
      obtain ⟨s1, htrim, hpair⟩ := map_eq_some_iff.1 h
      cases hpair
      have hdrop := (hs.remember (copy_cache_obj_to_request ⟨id, obj⟩) obj.md { new_obj := obj.md.new_obj } le_rfl).drop_SR id
      exact Drops.trim ⟨hdrop.kept, hdrop.holds⟩ htrim
  · rw [hR] at h
    obtain ⟨s1, htrim, hpair⟩ := map_eq_some_iff.1 h
    cases hpair
    have hdrop := (hs.remember (copy_cache_obj_to_request ⟨id, obj⟩) obj.md { new_obj := obj.md.new_obj } le_rfl).drop_R id
    exact Drops.trim ⟨hdrop.kept, hdrop.holds⟩ htrim

theorem return_to_R_kept (hs : Kept s) (hsize : 0 ≤ req.obj_size) {was_new : Bool} (h : return_to_R s req was_new = some s') :
    Kept s' ∧ s'.holds req.obj_id ∧ ∀ x, s.holds x → s'.holds x := by
  obtain ⟨s1, hloop, hgrow⟩ := bind_eq_some_iff.1 h
  obtain ⟨hsized, hholds, hH⟩ := demote_loop_shifts (s := { s with H_list := (s.H_list.LRU_remove req.obj_id).1 })
    ⟨hs.sized.R, hs.sized.SR⟩ hloop
  obtain ⟨hsized', hholds', hH'⟩ := grow_SR_shifts (s := { s1 with R_list := s1.R_list.LRU_insert req { new_obj := was_new } })
    ⟨hsized.R.insert hsize _, hsized.SR⟩ hgrow
  refine ⟨⟨hsized', ?_⟩, hholds' _ (.inl ((mem_LRU_insert _).2 (.inl rfl))), fun x hx => hholds' x ?_⟩
  · rw [hH', hH]
    exact hs.noted.remove _
  · exact (hholds x hx).imp_left fun hx => (mem_LRU_insert _).2 (.inr hx)

theorem enter_kept (hs : Kept s) (hsize : 0 ≤ req.obj_size) (h : enter s req = some s') :
    Kept s' ∧ s'.holds req.obj_id ∧ ∀ x, s.holds x → s'.holds x := by
  unfold enter at h
  split at h
  · exact return_to_R_kept hs hsize h
  · cases h
    exact ⟨⟨⟨hs.sized.R, hs.sized.SR.insert hsize _⟩, hs.noted⟩, .inr ((mem_LRU_insert _).2 (.inl rfl)),
      fun x hx => hx.imp_right fun hx => (mem_LRU_insert _).2 (.inr hx)⟩

end CacheSim.Cacheus
