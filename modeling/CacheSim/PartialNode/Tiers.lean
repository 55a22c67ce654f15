import CacheSim.PartialNode.Model
import CacheSim.Radix.Add

/-!
# The two tiers

Which tier a block is in is written nowhere: the small queue is what the tree does not have resident.
-/

namespace CacheSim.PartialNode

open Lib Radix List AList Table

variable {ε : Type}

def sizeIn (ht : Table ObjId Obj) (id : ObjId) : Int := ((ht.lookup id).map (·.obj_size)).getD 0

variable {ht : Table ObjId Obj} {id : ObjId} {obj : Obj}

theorem sizeIn_lookup (h : ht.lookup id = some obj) : sizeIn ht id = obj.obj_size := by
  unfold sizeIn
  rw [h]
  rfl

def bytesOf (ht : Table ObjId Obj) (ids : List ObjId) : Int := (ids.map (sizeIn ht)).sum

variable {ids : List ObjId}

theorem bytesOf_congr {ht' : Table ObjId Obj}
    (h : ∀ id ∈ ids, sizeIn ht' id = sizeIn ht id) : bytesOf ht' ids = bytesOf ht ids := by
  unfold bytesOf
  rw [map_congr_left h]

theorem bytesOf_erase (h : id ∈ ids) : bytesOf ht (ids.erase id) = bytesOf ht ids - sizeIn ht id := by
  have hsum := ((perm_cons_erase h).map (sizeIn ht)).sum_eq
  rw [map_cons, sum_cons] at hsum
  unfold bytesOf
  omega

structure Counted (s : State ε) : Prop where
  occupied : s.occupied_byte = s.hashtable.weigh fun _ obj => obj.obj_size
  n_obj : s.n_obj = s.hashtable.entries.length

/-- The tree has the paths `R`, and the two tiers share out the hash table. -/
structure Inv (R : ObjId → List ObjId) (s : State ε) : Prop where
  good : Good R s.tree
  tiers : ∀ x, x ∈ s.hashtable ↔ x ∈ s.small ∨ Resident s.tree x
  apart : ∀ x ∈ s.small, ¬ Resident s.tree x
  nodup : s.small.Nodup
  small_bytes : s.small_bytes = bytesOf s.hashtable s.small
  counted : Counted s
  ghost : ∀ g, s.ghost = some g → g.Inv ∧ ∀ x ∈ g.q, x ∉ s.hashtable
  off : s.small_enabled = false → s.small = [] ∧ s.ghost = none

def Known (s : State ε) (x : ObjId) : Prop := x ∈ s.hashtable ∨ ∃ g, s.ghost = some g ∧ x ∈ g.q

/-- From `s` to `s'` the cache gave up `k` objects, and learned of no new one. -/
structure Sheds (s s' : State ε) (k : Int) : Prop where
  known : ∀ x, Known s' x → Known s x
  n_obj : s'.n_obj = s.n_obj - k

theorem Sheds.refl (s : State ε) : Sheds s s 0 := ⟨fun _ h => h, by omega⟩

theorem Sheds.trans {s t u : State ε} {k l : Int} (h : Sheds s t k) (h' : Sheds t u l) : Sheds s u (k + l) :=
  ⟨fun x hx => h.known x (h'.known x hx), by rw [h'.n_obj, h.n_obj]; omega⟩

theorem Counted.remove {s : State ε} (h : Counted s)
    (hid : s.hashtable.lookup id = some obj) : Counted (s.cache_remove_obj_base id obj) := by
  constructor
  · show s.occupied_byte - obj.obj_size = Table.weigh _ (s.hashtable.erase id)
    rw [h.occupied, weigh_erase _ hid]
  · show s.n_obj - 1 = ((s.hashtable.erase id).entries.length : Int)
    have hlen := (perm_erase hid).length_eq
    rw [length_cons] at hlen
    rw [h.n_obj, hlen]
    omega

theorem Counted.update {s : State ε} (h : Counted s) {obj obj' : Obj}
    (hid : s.hashtable.lookup id = some obj) (hsize : obj'.obj_size = obj.obj_size) :
    Counted (s.set_obj id obj') := by
  constructor
  · show s.occupied_byte = Table.weigh _ (s.hashtable.insert id obj')
    rw [h.occupied, weigh_update _ hid, hsize]
    omega
  · show s.n_obj = ((s.hashtable.insert id obj').entries.length : Int)
    rw [h.n_obj, (perm_erase hid).length_eq, entries_insert]
    rfl

theorem Counted.insert {s : State ε} (h : Counted s) {req : Request} (hmiss : req.obj_id ∉ s.hashtable) :
    Counted (cache_insert_base s req) := by
  constructor
  · show s.occupied_byte + req.obj_size = Table.weigh _ (s.hashtable.insert req.obj_id _)
    rw [weigh_insert_of_notMem _ _ hmiss, h.occupied]
    exact Int.add_comm _ _
  · show s.n_obj + 1 = ((s.hashtable.insert req.obj_id _).entries.length : Int)
    rw [entries_insert_of_notMem hmiss, h.n_obj]
    simp

variable {x : ObjId}

theorem sizeIn_erase_ne (h : x ≠ id) : sizeIn (ht.erase id) x = sizeIn ht x := by
  unfold sizeIn
  rw [lookup_erase_ne h]

theorem sizeIn_insert_ne (obj : Obj) (h : x ≠ id) : sizeIn (ht.insert id obj) x = sizeIn ht x := by
  unfold sizeIn
  rw [lookup_insert_ne h]

theorem sizeIn_update {obj obj' : Obj} (hid : ht.lookup id = some obj)
    (hsize : obj'.obj_size = obj.obj_size) (x : ObjId) : sizeIn (ht.insert id obj') x = sizeIn ht x := by
  rcases eq_or_ne x id with rfl | hx
  · rw [sizeIn_lookup (lookup_insert ht), sizeIn_lookup hid, hsize]
  · exact sizeIn_insert_ne obj' hx

/-! ## What the calls do to one block -/

variable {R : ObjId → List ObjId} {s : State ε}

theorem Inv.frame (h : Inv R s) {n_req request_end_vtime : Int} {has_evicted hit_on_ghost : Bool} {n_rand : Nat}
    {extra : ε} : Inv R { s with
      n_req := n_req, request_end_vtime := request_end_vtime, has_evicted := has_evicted
      hit_on_ghost := hit_on_ghost, n_rand := n_rand, extra := extra } :=
  { h with counted := ⟨h.counted.occupied, h.counted.n_obj⟩ }

variable {id : ObjId}

section

variable (h : Inv R s)
include h

theorem Inv.touch (obj' : Obj) (hid : s.hashtable.lookup id = some obj)
    (hsize : obj'.obj_size = obj.obj_size) : Inv R (s.set_obj id obj') := by
  have hmem : ∀ x, x ∈ s.hashtable.insert id obj' ↔ x ∈ s.hashtable := by
    intro x
    rw [mem_insert]
    constructor
    · rintro (rfl | hx)
      · exact mem_of_lookup hid
      · exact hx
    · exact Or.inr
  refine ⟨h.good, fun x => (hmem x).trans (h.tiers x), h.apart, h.nodup, ?_, h.counted.update hid hsize, ?_, h.off⟩
  · exact h.small_bytes.trans (bytesOf_congr fun x _ => sizeIn_update hid hsize x).symm
  · intro g hg
    exact ⟨(h.ghost g hg).1, fun x hx => mt (hmem x).1 ((h.ghost g hg).2 x hx)⟩

section

variable (hid : s.hashtable.lookup id = some obj)
include hid

theorem Inv.promote
    (hsmall : id ∈ s.small) : ∃ s', (s.unlink_small id obj.obj_size).mark_resident id = some s' ∧ Inv R s' ∧
      Sheds s s' 0 ∧ s'.small = s.small.erase id := by
  obtain ⟨t, ht, hgood, hres, -⟩ := mark_resident_spec h.good id
  refine ⟨{ s.unlink_small id obj.obj_size with tree := t }, ?_, ⟨hgood, ?_, ?_, h.nodup.erase id, ?_,
    ⟨h.counted.occupied, h.counted.n_obj⟩, h.ghost, ?_⟩, ⟨fun x hx => hx, (sub_zero _).symm⟩, rfl⟩
  · unfold State.mark_resident
    rw [show (s.unlink_small id obj.obj_size).tree = s.tree from rfl, ht]
    rfl
  · intro x
    show x ∈ s.hashtable ↔ x ∈ s.small.erase id ∨ Resident t x
    rw [h.tiers, hres, h.nodup.mem_erase_iff]
    rcases eq_or_ne x id with rfl | hx
    · simp [hsmall]
    · simp [hx]
  · intro x hx
    have hx' : x ≠ id ∧ x ∈ s.small := h.nodup.mem_erase_iff.1 hx
    rw [hres]
    rintro (rfl | hr)
    · exact hx'.1 rfl
    · exact h.apart x hx'.2 hr
  · show s.small_bytes - obj.obj_size = bytesOf s.hashtable (s.small.erase id)
    rw [bytesOf_erase hsmall, h.small_bytes, sizeIn_lookup hid]
  · intro hoff
    rw [(h.off hoff).1] at hsmall
    cases hsmall

theorem Inv.drop_small
    (hsmall : id ∈ s.small) : ∃ s', (s.unlink_small id obj.obj_size).ghost_get id = some s' ∧
      Inv R (s'.cache_evict_base id obj) ∧ Sheds s (s'.cache_evict_base id obj) 1 ∧
      (s'.cache_evict_base id obj).small = s.small.erase id := by
  -- the ghost learns of the dropped id only
  obtain ⟨ghost', hget, hghost⟩ : ∃ ghost',
      (s.unlink_small id obj.obj_size).ghost_get id =
        some { s.unlink_small id obj.obj_size with ghost := ghost' } ∧
      ∀ g, ghost' = some g → g.Inv ∧ ∀ x ∈ g.q, x = id ∨ ∃ g0, s.ghost = some g0 ∧ x ∈ g0.q := by
    unfold State.ghost_get
    rcases hg : s.ghost with _ | g
    · refine ⟨none, ?_, by simp⟩
      simp [State.unlink_small, hg]
    · obtain ⟨g', hit, hg', hinv, hmem⟩ := Fifo.FIFO_get_spec (h.ghost g hg).1 { obj_id := id, obj_size := 1 }
      refine ⟨some g', by simp [State.unlink_small, hg, hg'], ?_⟩
      intro g1 hg1
      cases hg1
      exact ⟨hinv, fun x hx => (hmem x hx).imp_right fun hx => ⟨g, rfl, hx⟩⟩
  have hmem : ∀ x, x ∈ s.hashtable.erase id ↔ x ≠ id ∧ x ∈ s.hashtable := fun x => mem_erase
  refine ⟨_, hget, ⟨h.good, ?_, ?_, h.nodup.erase id, ?_, ?_, ?_, ?_⟩, ⟨?_, rfl⟩, rfl⟩
  · intro x
    show x ∈ s.hashtable.erase id ↔ x ∈ s.small.erase id ∨ Resident s.tree x
    rw [hmem, h.tiers, h.nodup.mem_erase_iff]
    rcases eq_or_ne x id with rfl | hx
    · simp [h.apart x hsmall]
    · simp [hx]
  · intro x hx
    exact h.apart x (mem_of_mem_erase hx)
  · show s.small_bytes - obj.obj_size = bytesOf (s.hashtable.erase id) (s.small.erase id)
    rw [bytesOf_congr fun x hx => sizeIn_erase_ne (h.nodup.mem_erase_iff.1 hx).1, bytesOf_erase hsmall,
      h.small_bytes, sizeIn_lookup hid]
  · exact ⟨(h.counted.remove hid).occupied, (h.counted.remove hid).n_obj⟩
  · intro g hg
    refine ⟨(hghost g hg).1, fun x hx => ?_⟩
    show x ∉ s.hashtable.erase id
    rw [hmem]
    rintro ⟨hne, hin⟩
    rcases (hghost g hg).2 x hx with rfl | ⟨g0, hg0, hx0⟩
    · exact hne rfl
    · exact (h.ghost g0 hg0).2 x hx0 hin
  · intro hoff
    rw [(h.off hoff).1] at hsmall
    cases hsmall
  · rintro x (hx | ⟨g, hg, hx⟩)
    · exact .inl ((hmem x).1 hx).2
    · rcases (hghost g hg).2 x hx with rfl | hold
      · exact .inl (mem_of_lookup hid)
      · exact .inr hold

theorem Inv.remove
    {small : List ObjId} {small_bytes : Int} (hsmall : small = s.small.erase id)
    (hbytes : small_bytes = bytesOf s.hashtable (s.small.erase id)) :
    ∃ s', ({ s with small := small, small_bytes := small_bytes } : State ε).mark_evicted id = some s' ∧
      Inv R (s'.cache_remove_obj_base id obj) ∧ Sheds s (s'.cache_remove_obj_base id obj) 1 ∧
      (s'.cache_remove_obj_base id obj).small = s.small.erase id := by
  obtain ⟨t, kept, ht, hgood, hres, -⟩ := mark_evicted_spec h.good id
  have hmem : ∀ x, x ∈ s.hashtable.erase id ↔ x ≠ id ∧ x ∈ s.hashtable := fun x => mem_erase
  refine ⟨{ s with small := small, small_bytes := small_bytes, tree := t }, ?_,
    ⟨hgood, ?_, ?_, ?_, ?_, ⟨(h.counted.remove hid).occupied, (h.counted.remove hid).n_obj⟩, ?_, ?_⟩,
    ⟨?_, rfl⟩, hsmall⟩
  · simp [State.mark_evicted, ht]
  · intro x
    show x ∈ s.hashtable.erase id ↔ x ∈ small ∨ Resident t x
    rw [hmem, h.tiers, hres, hsmall, h.nodup.mem_erase_iff, and_or_left]
  · intro x hx
    show ¬ Resident t x
    have hx' : x ∈ small := hx
    rw [hsmall] at hx'
    rw [hres]
    exact fun hr => h.apart x (mem_of_mem_erase hx') hr.2
  · rw [hsmall]
    exact h.nodup.erase id
  · rw [hbytes, hsmall]
    exact (bytesOf_congr fun x hx => sizeIn_erase_ne (h.nodup.mem_erase_iff.1 hx).1).symm
  · intro g hg
    refine ⟨(h.ghost g hg).1, fun x hx => ?_⟩
    show x ∉ s.hashtable.erase id
    rw [hmem]
    exact fun hin => (h.ghost g hg).2 x hx hin.2
  · intro hoff
    refine ⟨?_, (h.off hoff).2⟩
    rw [hsmall, (h.off hoff).1]
    rfl
  · rintro x (hx | hx)
    · exact .inl ((hmem x).1 hx).2
    · exact .inr hx

theorem Inv.evict_main
    (hsmall : id ∉ s.small) : ∃ s', s.mark_evicted id = some s' ∧ Inv R (s'.cache_evict_base id obj) ∧
      Sheds s (s'.cache_evict_base id obj) 1 ∧ (s'.cache_evict_base id obj).small = s.small := by
  have hsame : s.small = s.small.erase id := (erase_of_not_mem hsmall).symm
  have hbytes : s.small_bytes = bytesOf s.hashtable (s.small.erase id) := by
    rw [← hsame]
    exact h.small_bytes
  obtain ⟨s', hs', hinv, hsheds, hlist⟩ := h.remove hid hsame hbytes
  exact ⟨s', hs', hinv, hsheds, hlist.trans hsame.symm⟩

end

end

end CacheSim.PartialNode
