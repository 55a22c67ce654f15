import CacheSim.Directory.Proofs

/-!
# Directories of unit objects

With objects of size 1 the bytes of a list are its length.
-/

namespace CacheSim.Directory

open Lib

structure Units (d : Dir) : Prop where
  inv : DirInv d
  unit : ∀ i o, d.dir.table i = some o → d.charge o = 1

variable {d d' : Dir} {i : ObjId} {o : Obj} {x : Option Obj}

section

variable (h : Units d)
include h

theorem Units.size_eq (k : ListId) : d.size k = (d.dir.list k).length := by
  have hweight : ∀ j ∈ d.dir.list k, d.dir.weight d.charge j = 1 := by
    intro j hj
    obtain ⟨r, hr, -⟩ := h.inv.wf.table_of_mem hj
    simpa [Part.weight, hr] using h.unit j r hr
  rw [h.inv.size, Part.total, List.map_congr_left hweight]
  simp

theorem Units.sets (hs : Sets d d' i x) (hx : ∀ o, x = some o → o.Ok ∧ d.charge o = 1) :
    Units d' ∧ ∀ k, d'.size k = d.size k - (if (d.dir.table i).map Obj.listId = some k then 1 else 0) +
      (if x.map Obj.listId = some k then 1 else 0) := by
  have hshare : ∀ (y : Option Obj) k, (∀ o, y = some o → d.charge o = 1) →
      d.share k y = if y.map Obj.listId = some k then 1 else 0 := by
    intro y k hy
    cases y with
    | none => rfl
    | some o => simp [Dir.share_some, hy o rfl]
  refine ⟨⟨h.inv.sets hs fun o ho => (hx o ho).1, ?_⟩, ?_⟩
  · intro j o hj
    rw [Dir.charge_eq hs.md]
    rw [hs.part.table_eq] at hj
    by_cases hji : j = i
    · subst hji
      exact (hx o (by simpa using hj)).2
    · exact h.unit j o (by simpa [Function.update_of_ne hji] using hj)
  · intro k
    rw [hs.size, hshare _ k (h.unit i), hshare x k fun o ho => (hx o ho).2]

section

variable (hi : d.dir.table i = some o)
include hi

theorem Units.discard (hg : o.ghost = true) :
    Units (d.discard i o) ∧ ∀ k, (d.discard i o).size k = d.size k - if o.listId = k then 1 else 0 := by
  have hs := h.sets (h.inv.discard_sets hi hg) (by simp)
  simpa [hi] using hs

theorem Units.drop (hg : o.ghost = false) :
    Units (d.drop i o) ∧ ∀ k, (d.drop i o).size k = d.size k - if o.listId = k then 1 else 0 := by
  have hs := h.sets (h.inv.drop_sets hi hg) (by simp)
  simpa [hi] using hs

theorem Units.demote (hg : o.ghost = false) :
    Units (d.demote i o) ∧ ∀ k, (d.demote i o).size k = d.size k - (if o.listId = k then 1 else 0) +
      if ({ o with ghost := true } : Obj).listId = k then 1 else 0 := by
  have hs := h.sets (h.inv.demote_sets hi hg) (by
    rintro _ ⟨⟩
    exact ⟨(h.inv.ok i o hi).ghosted, h.unit i o hi⟩)
  simpa [hi] using hs

theorem Units.promote (hid : o.listId = .L1_data) (at_head reference : Bool) :
    Units (d.promote i o at_head reference) ∧ ∀ k, (d.promote i o at_head reference).size k =
      d.size k - (if ListId.L1_data = k then 1 else 0) + if ListId.L2_data = k then 1 else 0 := by
  have hid' : ({ o with lru_id := 2, reference := reference } : Obj).listId = .L2_data := by
    simp [Obj.listId, (Obj.listId_L1_data.1 hid).2]
  have hs := h.sets (h.inv.promote_sets hi hid at_head reference) (by
    rintro _ ⟨⟩
    exact ⟨⟨Or.inr rfl, (h.inv.ok i o hi).2⟩, h.unit i o hi⟩)
  simpa [hi, hid, hid'] using hs

end

end

variable {req : Request} {lru_id : Nat}

theorem Units.enter (h : Units d) (hi : d.dir.table req.obj_id = none) (hsize : req.obj_size = 1)
    (hmd : d.obj_md_size = 0) (hl : lru_id = 1 ∨ lru_id = 2) (at_head : Bool) :
    Units (d.enter req lru_id at_head) ∧ ∀ k, (d.enter req lru_id at_head).size k =
      d.size k + if ({ obj_size := req.obj_size, lru_id := lru_id } : Obj).listId = k then 1 else 0 := by
  have hs := h.sets (h.inv.enter_sets req hi lru_id at_head) (by
    rintro _ ⟨⟩
    refine ⟨⟨hl, hsize.ge⟩, ?_⟩
    simp [Dir.charge, hsize, hmd])
  simpa [hi] using hs

/-! ## The two sides -/

def Dir.L1 (d : Dir) : Int := d.size .L1_data + d.size .L1_ghost

def Dir.L2 (d : Dir) : Int := d.size .L2_data + d.size .L2_ghost

/-- A change that takes `n₁` and `n₂` entries from the two sides, and `n` residents. -/
structure Dir.Takes (n₁ n₂ n : Int) (d d' : Dir) : Prop where
  units : Units d'
  md : d'.obj_md_size = d.obj_md_size
  cache_size : d'.cache_size = d.cache_size
  n_req : d'.n_req = d.n_req
  L1_eq : d'.L1 = d.L1 - n₁
  L2_eq : d'.L2 = d.L2 - n₂
  occ : d'.occupied_byte = d.occupied_byte - n

theorem Dir.Takes.trans {d'' : Dir} {n1 n2 n m1 m2 m : Int} (h : d.Takes n1 n2 n d') (h' : d'.Takes m1 m2 m d'') :
    d.Takes (n1 + m1) (n2 + m2) (n + m) d'' where
  units := h'.units
  md := h'.md.trans h.md
  cache_size := h'.cache_size.trans h.cache_size
  n_req := h'.n_req.trans h.n_req
  L1_eq := by rw [h'.L1_eq, h.L1_eq, Int.sub_sub]
  L2_eq := by rw [h'.L2_eq, h.L2_eq, Int.sub_sub]
  occ := by rw [h'.occ, h.occ, Int.sub_sub]

theorem Sets.takes {n1 n2 n : Int} (hs : Sets d d' i x) (hunits : Units d')
    (hocc : d.occupied_byte = d.size .L1_data + d.size .L2_data)
    (hreq : d'.n_req = d.n_req) (h1 : d'.L1 = d.L1 - n1) (h2 : d'.L2 = d.L2 - n2)
    (h : d'.size .L1_data + d'.size .L2_data = d.size .L1_data + d.size .L2_data - n) : d.Takes n1 n2 n d' where
  __ := hs
  units := hunits
  n_req := hreq
  L1_eq := h1
  L2_eq := h2
  occ := by rw [hunits.inv.occ, hocc, h]

section

variable (h : Units d)
include h

section

variable (hi : d.dir.table i = some o)
include hi

theorem Units.demote_takes (hg : o.ghost = false) : d.Takes 0 0 1 (d.demote i o) := by
  obtain ⟨hunits, hsize⟩ := h.demote hi hg
  have hreq : (d.demote i o).n_req = d.n_req := by
    simp [Dir.demote, Dir.remove_obj_from_list, Dir.link, Dir.cache_evict_base]
  have hid : o.listId = .L1_data ∧ ({ o with ghost := true } : Obj).listId = .L1_ghost ∨
      o.listId = .L2_data ∧ ({ o with ghost := true } : Obj).listId = .L2_ghost := by
    by_cases hl : o.lru_id = 1 <;> simp [Obj.listId, hl, hg]
  apply (h.inv.demote_sets hi hg).takes hunits h.inv.occ hreq
  · unfold Dir.L1
    rw [hsize, hsize]
    rcases hid with ⟨h1, h2⟩ | ⟨h1, h2⟩ <;> rw [h1, h2] <;> simp
  · unfold Dir.L2
    rw [hsize, hsize]
    rcases hid with ⟨h1, h2⟩ | ⟨h1, h2⟩ <;> rw [h1, h2] <;> simp
  · rw [hsize, hsize]
    rcases hid with ⟨h1, h2⟩ | ⟨h1, h2⟩ <;> rw [h1, h2] <;> simp <;> omega

theorem Units.drop_takes (hid : o.listId = .L1_data) : d.Takes 1 0 1 (d.drop i o) := by
  have hg := (Obj.listId_L1_data.1 hid).2
  obtain ⟨hunits, hsize⟩ := h.drop hi hg
  have hreq : (d.drop i o).n_req = d.n_req := by simp [Dir.drop, Dir.remove_obj_from_list]
  apply (h.inv.drop_sets hi hg).takes hunits h.inv.occ hreq
  · unfold Dir.L1
    rw [hsize, hsize, hid]
    simp
    omega
  · unfold Dir.L2
    rw [hsize, hsize, hid]
    simp
  · rw [hsize, hsize, hid]
    simp
    omega

theorem Units.discard_takes (hg : o.ghost = true) :
    d.Takes (if o.listId = .L1_ghost then 1 else 0) (if o.listId = .L2_ghost then 1 else 0) 0 (d.discard i o) := by
  obtain ⟨hunits, hsize⟩ := h.discard hi hg
  have hreq : (d.discard i o).n_req = d.n_req := by simp [Dir.discard, Dir.remove_obj_from_list]
  have hid : o.listId = .L1_ghost ∨ o.listId = .L2_ghost := by
    by_cases hl : o.lru_id = 1 <;> simp [Obj.listId, hl, hg]
  apply (h.inv.discard_sets hi hg).takes hunits h.inv.occ hreq
  · unfold Dir.L1
    rw [hsize, hsize]
    rcases hid with hid | hid <;> rw [hid] <;> simp
    omega
  · unfold Dir.L2
    rw [hsize, hsize]
    rcases hid with hid | hid <;> rw [hid] <;> simp
    omega
  · rw [hsize, hsize]
    rcases hid with hid | hid <;> rw [hid] <;> simp

theorem Units.promote_takes (hid : o.listId = .L1_data) (at_head reference : Bool) :
    d.Takes 1 (-1) 0 (d.promote i o at_head reference) := by
  obtain ⟨hunits, hsize⟩ := h.promote hi hid at_head reference
  have hreq : (d.promote i o at_head reference).n_req = d.n_req := by simp [Dir.promote, Dir.remove_obj_from_list, Dir.link]
  apply (h.inv.promote_sets hi hid at_head reference).takes hunits h.inv.occ hreq
  · unfold Dir.L1
    rw [hsize, hsize]
    simp
    omega
  · unfold Dir.L2
    rw [hsize, hsize]
    simp
    omega
  · rw [hsize, hsize]
    simp

theorem Units.reorder_takes (reference : Bool) {l : List ObjId}
    (hl : l.Perm (d.dir.list o.listId)) : d.Takes 0 0 0 ((d.set_list o.listId l).set_obj i { o with reference := reference }) := by
  have hs := h.inv.reorder_sets hi reference hl
  obtain ⟨hunits, -⟩ := h.sets hs (by
    rintro _ ⟨⟩
    exact ⟨h.inv.ok i o hi, h.unit i o hi⟩)
  apply hs.takes hunits h.inv.occ rfl
  · exact (Int.sub_zero _).symm
  · exact (Int.sub_zero _).symm
  · exact (Int.sub_zero _).symm

end

theorem Units.enter_takes (hi : d.dir.table req.obj_id = none) (hsize : req.obj_size = 1)
    (hmd : d.obj_md_size = 0) (hl : lru_id = 1 ∨ lru_id = 2) (at_head : Bool) :
    d.Takes (if lru_id = 1 then -1 else 0) (if lru_id = 1 then 0 else -1) (-1) (d.enter req lru_id at_head) := by
  obtain ⟨hunits, hsizes⟩ := h.enter hi hsize hmd hl at_head
  have hreq : (d.enter req lru_id at_head).n_req = d.n_req := by simp [Dir.enter, Dir.cache_insert_base, Dir.link]
  apply (h.inv.enter_sets req hi lru_id at_head).takes hunits h.inv.occ hreq
  · unfold Dir.L1
    rw [hsizes, hsizes]
    rcases hl with rfl | rfl <;> simp [Obj.listId]
    omega
  · unfold Dir.L2
    rw [hsizes, hsizes]
    rcases hl with rfl | rfl <;> simp [Obj.listId]
    omega
  · rw [hsizes, hsizes]
    rcases hl with rfl | rfl <;> simp [Obj.listId] <;> omega

def Dir.entries (d : Dir) : Nat :=
  (d.dir.list .L1_data).length + (d.dir.list .L2_data).length + (d.dir.list .L1_ghost).length + (d.dir.list .L2_ghost).length

theorem Units.entries_eq : d.entries = d.L1 + d.L2 := by
  unfold Dir.entries Dir.L1 Dir.L2
  rw [h.size_eq, h.size_eq, h.size_eq, h.size_eq]
  omega

end

theorem DirInv.length_le_entries (h : DirInv d) {ids : List ObjId} (hids : ids.Nodup) (htable : ∀ j ∈ ids, d.dir.table j ≠ none) :
    ids.length ≤ d.entries := by
  let all := d.dir.list .L1_data ++ (d.dir.list .L2_data ++ (d.dir.list .L1_ghost ++ d.dir.list .L2_ghost))
  have hsub : ids ⊆ all := by
    intro j hj
    obtain ⟨o, ho⟩ := Option.ne_none_iff_exists'.1 (htable j hj)
    have hmem := h.wf.mem_of_table ho
    cases hid : o.listId <;> rw [hid] at hmem <;> simp [all, hmem]
  have hle := (List.subperm_of_subset hids hsub).length_le
  simp only [all, List.length_append] at hle
  unfold Dir.entries
  omega

end CacheSim.Directory
