import CacheSim.LeCaR.Levels

/-!
# The residents, the ghosts and the histories

Objects and ghosts share the hash table.
-/

namespace CacheSim.LeCaR

open Lib List AList Table

def Ghost (k : Int) (o : Obj) : Prop := o.is_ghost = true ∧ o.evict_expert = k

instance (k : Int) (o : Obj) : Decidable (Ghost k o) := inferInstanceAs (Decidable (_ ∧ _))

structure Legal (o : Obj) : Prop where
  size : 0 ≤ o.obj_size
  expert : o.is_ghost = true → o.evict_expert = 1 ∨ o.evict_expert = 2 ∨ o.evict_expert = -1

theorem Legal.of_resident {o : Obj} (hr : o.is_ghost = false) (hsize : 0 ≤ o.obj_size) : Legal o :=
  ⟨hsize, fun hg => absurd hg (by simp [hr])⟩

variable {q : List ObjId} {t t' : Table ObjId Obj} {m : Int → Option FreqNode} {x : ObjId} {o o' : Obj}
  {md n_obj occupied : Int} {k : Int} {H : History}

/-! ## Histories -/

structure Remembers (t : Table ObjId Obj) (md k : Int) (H : History) : Prop where
  nodup : H.objs.Nodup
  mem : ∀ x, x ∈ H.objs ↔ ∃ o, t.lookup x = some o ∧ Ghost k o
  bytes : H.occupied_byte = t.weigh fun _ o => if Ghost k o then o.obj_size + md else 0

section

variable (h : Remembers t md k H)
include h

theorem Remembers.not_mem (ho : t.lookup x = some o) (hk : ¬ Ghost k o) : x ∉ H.objs := by
  intro hx
  obtain ⟨o1, ho1, hg⟩ := (h.mem x).1 hx
  exact hk (Option.some.inj (ho1.symm.trans ho) ▸ hg)

theorem Remembers.write (ho : t.lookup x = some o) (hk : ¬ Ghost k o) (hk' : ¬ Ghost k o') :
    Remembers (t.insert x o') md k H where
  nodup := h.nodup
  mem := by
    intro y
    rw [h.mem]
    rcases eq_or_ne y x with rfl | hne
    · rw [lookup_insert, ho]
      simp [hk, hk']
    · rw [lookup_insert_ne hne]
  bytes := by
    rw [weigh_update _ ho, ← h.bytes]
    simp [hk, hk']

theorem Remembers.fresh (hx : x ∉ t) (hk' : ¬ Ghost k o') : Remembers (t.insert x o') md k H where
  nodup := h.nodup
  mem := by
    intro y
    rw [h.mem]
    rcases eq_or_ne y x with rfl | hne
    · rw [lookup_insert, lookup_eq_none.2 hx]
      simp [hk']
    · rw [lookup_insert_ne hne]
  bytes := by
    rw [weigh_insert_of_notMem _ _ hx, ← h.bytes]
    simp [hk']

section

variable (ho : t.lookup x = some o)
include ho

theorem Remembers.erase_other (hk : ¬ Ghost k o) : Remembers (t.erase x) md k H where
  nodup := h.nodup
  mem := by
    intro y
    rw [h.mem]
    rcases eq_or_ne y x with rfl | hne
    · rw [lookup_erase, ho]
      simp [hk]
    · rw [lookup_erase_ne hne]
  bytes := by
    rw [weigh_erase _ ho, ← h.bytes]
    simp [hk]

theorem Remembers.add (hk : ¬ Ghost k o) (hk' : Ghost k o') :
    Remembers (t.insert x o') md k { objs := x :: H.objs, occupied_byte := H.occupied_byte + (o'.obj_size + md) } where
  nodup := nodup_cons.2 ⟨h.not_mem ho hk, h.nodup⟩
  mem := by
    intro y
    rw [mem_cons, h.mem]
    rcases eq_or_ne y x with rfl | hne
    · simp [hk']
    · simp [hne]
  bytes := by
    rw [weigh_update _ ho, ← h.bytes]
    simp [hk, hk']

theorem Remembers.remove (hk : Ghost k o) :
    Remembers (t.erase x) md k (H.remove x (o.obj_size + md)) where
  nodup := h.nodup.erase x
  mem := by
    intro y
    unfold History.remove
    rw [h.nodup.mem_erase_iff, h.mem]
    rcases eq_or_ne y x with rfl | hne
    · simp
    · simp [hne]
  bytes := by
    unfold History.remove
    rw [weigh_erase _ ho, ← h.bytes]
    simp [hk]

end

end

theorem trim_spec {limit : Int} (J : Table ObjId Obj → Prop)
    (hJ : ∀ t x o, J t → t.lookup x = some o → Ghost k o → J (t.erase x))
    (h : Remembers t md k H) (ht : J t) (hlimit : 0 ≤ limit) :
    ∃ H' t', trim limit md H t = some (H', t') ∧ Remembers t' md k H' ∧ H'.occupied_byte ≤ limit ∧ J t' := by
  let I : History × Table ObjId Obj → Prop := fun w => Remembers w.2 md k w.1 ∧ J w.2
  have hbody : ∀ w : History × Table ObjId Obj, I w → decide (w.1.occupied_byte > limit) = true → ∃ w', (do
      let ghost_to_evict ← w.1.objs.getLast?
      let obj ← w.2.lookup ghost_to_evict
      return (w.1.remove ghost_to_evict (obj.obj_size + md), w.2.erase ghost_to_evict)) = some w' ∧ I w' ∧
        w'.1.objs.length < w.1.objs.length := by
    rintro ⟨H, t⟩ ⟨h, ht⟩ hover
    have hne : H.objs ≠ [] := by
      intro hnil
      have hnone : ∀ x o, t.lookup x = some o → ¬ Ghost k o := by
        intro x o ho hg
        have := (h.mem x).2 ⟨o, ho, hg⟩
        simp [hnil] at this
      have hzero : H.occupied_byte = 0 := by
        rw [h.bytes]
        apply sum_eq_zero
        intro n hn
        obtain ⟨e, he, rfl⟩ := mem_map.1 hn
        exact if_neg (hnone e.1 e.2 (lookup_of_mem_entries he))
      simp at hover
      omega
    have hmem := getLast_mem hne
    obtain ⟨o, ho, hg⟩ := (h.mem _).1 hmem
    refine ⟨(H.remove (H.objs.getLast hne) (o.obj_size + md), t.erase (H.objs.getLast hne)), ?_, ⟨h.remove ho hg, ?_⟩, ?_⟩
    · simp [getLast?_eq_some_getLast hne, ho]
    · exact hJ t _ o ht ho hg
    · have hpos := length_pos_of_mem hmem
      show (H.objs.erase _).length < H.objs.length
      rw [length_erase_of_mem hmem]
      omega
  obtain ⟨⟨H', t'⟩, hloop, ⟨hrem, hJ'⟩, hle⟩ :=
    whileLoop_total I (fun w => w.1.objs.length) hbody H.objs.length (H, t) ⟨h, ht⟩ le_rfl
  exact ⟨H', t', hloop, hrem, by simpa using hle, hJ'⟩

/-! ## Residents -/

structure Residents (q : List ObjId) (t : Table ObjId Obj) (m : Int → Option FreqNode) (md n_obj occupied : Int) : Prop where
  nodup : q.Nodup
  mem : ∀ x, x ∈ q ↔ ∃ o, t.lookup x = some o ∧ o.is_ghost = false
  levels : Levels q t m
  n_obj : n_obj = q.length
  bytes : occupied = t.weigh fun _ o => if o.is_ghost then 0 else o.obj_size + md
  legal : ∀ x o, t.lookup x = some o → Legal o

section

variable (h : Residents q t m md n_obj occupied)
include h

theorem Residents.not_mem (ho : t.lookup x = some o) (hg : o.is_ghost = true) : x ∉ q := by
  intro hx
  obtain ⟨o1, ho1, hr⟩ := (h.mem x).1 hx
  rw [Option.some.inj (ho1.symm.trans ho), hg] at hr
  exact absurd hr (by simp)

theorem Residents.legal_insert (ho' : Legal o') (x : ObjId) : ∀ y o, (t.insert x o').lookup y = some o → Legal o := by
  intro y o ho
  rcases eq_or_ne y x with rfl | hne
  · rw [lookup_insert] at ho
    exact Option.some.inj ho ▸ ho'
  · rw [lookup_insert_ne hne] at ho
    exact h.legal y o ho

theorem Residents.legal_erase (x : ObjId) : ∀ y o, (t.erase x).lookup y = some o → Legal o := by
  intro y o ho
  rcases eq_or_ne y x with rfl | hne
  · simp at ho
  · rw [lookup_erase_ne hne] at ho
    exact h.legal y o ho

theorem Residents.erase_ghost (ho : t.lookup x = some o) (hg : o.is_ghost = true) :
    Residents q (t.erase x) m md n_obj occupied where
  __ := h
  mem := by
    intro y
    rw [h.mem]
    rcases eq_or_ne y x with rfl | hne
    · rw [lookup_erase, ho]
      simp [hg]
    · rw [lookup_erase_ne hne]
  levels := h.levels.congr (h.not_mem ho hg) (Frame.erase x t)
  bytes := by
    rw [weigh_erase _ ho, ← h.bytes]
    simp [hg]
  legal := h.legal_erase x

end

variable {m' : Int → Option FreqNode}

section

variable (h : Residents q t m md n_obj occupied)
include h

section

variable (ho : t.lookup x = some o)
include ho

section

variable (hr : o.is_ghost = false)
include hr

section

variable (hlevels : Levels (q.erase x) t m')
include hlevels

theorem Residents.evict (hg : o'.is_ghost = true) (hsize : o'.obj_size = o.obj_size)
    (hlegal : Legal o') :
    Residents (q.erase x) (t.insert x o') m' md (n_obj - 1) (occupied - (o'.obj_size + md)) where
  nodup := h.nodup.erase x
  mem := by
    intro y
    rw [h.nodup.mem_erase_iff, h.mem]
    rcases eq_or_ne y x with rfl | hne
    · simp [hg]
    · simp [hne]
  levels := hlevels.congr h.nodup.not_mem_erase (Frame.insert x o' t)
  n_obj := by
    have hx : x ∈ q := (h.mem x).2 ⟨o, ho, hr⟩
    have hpos := length_pos_of_mem hx
    rw [h.n_obj, length_erase_of_mem hx]
    omega
  bytes := by
    rw [weigh_update _ ho, ← h.bytes]
    simp [hr, hg, hsize]
  legal := h.legal_insert hlegal x

theorem Residents.remove :
    Residents (q.erase x) (t.erase x) m' md (n_obj - 1) (occupied - (o.obj_size + md)) where
  nodup := h.nodup.erase x
  mem := by
    intro y
    rw [h.nodup.mem_erase_iff, h.mem]
    rcases eq_or_ne y x with rfl | hne
    · simp
    · simp [hne]
  levels := hlevels.congr h.nodup.not_mem_erase (Frame.erase x t)
  n_obj := by
    have hx : x ∈ q := (h.mem x).2 ⟨o, ho, hr⟩
    have hpos := length_pos_of_mem hx
    rw [h.n_obj, length_erase_of_mem hx]
    omega
  bytes := by
    rw [weigh_erase _ ho, ← h.bytes]
    simp [hr]
  legal := h.legal_erase x

theorem Residents.hit (f : Int) :
    Residents (x :: q.erase x) (t.insert x { o with freq := f }) (Function.update m' f
      (some { node m' f with objs := (node m' f).objs ++ [x], n_obj := (node m' f).n_obj + 1 })) md n_obj occupied where
  nodup := nodup_cons.2 ⟨h.nodup.not_mem_erase, h.nodup.erase x⟩
  mem := by
    intro y
    rw [mem_cons, h.nodup.mem_erase_iff, h.mem]
    rcases eq_or_ne y x with rfl | hne
    · simp [hr]
    · simp [hne]
  levels := hlevels.attach h.nodup.not_mem_erase (Frame.insert x _ t) (lookup_insert _)
  n_obj := by
    have hx : x ∈ q := (h.mem x).2 ⟨o, ho, hr⟩
    rw [h.n_obj, (perm_cons_erase hx).length_eq]
  bytes := by
    rw [weigh_update _ ho, ← h.bytes]
    simp
  legal := by
    have hlegal : Legal { o with freq := f } := ⟨(h.legal x o ho).size, (h.legal x o ho).expert⟩
    exact h.legal_insert hlegal x

end

end

end

theorem Residents.insert (hx : x ∉ t) (hr : o.is_ghost = false)
    (hsize : 0 ≤ o.obj_size) : Residents (x :: q) (t.insert x o) (Function.update m o.freq
      (some { node m o.freq with objs := (node m o.freq).objs ++ [x], n_obj := (node m o.freq).n_obj + 1 }))
      md (n_obj + 1) (occupied + (o.obj_size + md)) := by
  have hnone := lookup_eq_none.2 hx
  have hxq : x ∉ q := by
    rw [h.mem, hnone]
    simp
  constructor
  · exact nodup_cons.2 ⟨hxq, h.nodup⟩
  · intro y
    rw [mem_cons, h.mem]
    rcases eq_or_ne y x with rfl | hne
    · simp [hr]
    · simp [hne]
  · exact h.levels.attach hxq (Frame.insert x _ t) (lookup_insert _)
  · rw [h.n_obj, length_cons]
    rfl
  · rw [weigh_insert_of_notMem _ _ hx, ← h.bytes]
    simp [hr]
    omega
  · exact h.legal_insert (.of_resident hr hsize) x

end

end CacheSim.LeCaR
