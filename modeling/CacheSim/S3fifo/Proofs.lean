import CacheSim.S3fifo.Model

/-!
# The three queues of S3-FIFO

No id is in two queues. An eviction may free nothing, but then the small queue is empty and the
next one takes an object out of the main queue.
-/

namespace CacheSim.S3fifo

open Lib Option AList Fifo

structure Inv (s : State) : Prop where
  small : s.small_fifo.Inv
  main : s.main_fifo.Inv
  ghost : ∀ g ∈ s.ghost_fifo, g.Inv
  small_md : s.small_fifo.obj_md_size = 0
  main_md : s.main_fifo.obj_md_size = 0
  apart : ∀ x, s.small_fifo.q.lookup x = none ∨ s.main_fifo.q.lookup x = none
  forgotten : ∀ x, s.remembers x = true → s.small_fifo.q.lookup x = none ∧ s.main_fifo.q.lookup x = none

def State.knows (s : State) (x : ObjId) : Prop := (S3FIFO_probe s x).isSome = true ∨ s.remembers x = true

variable {s s' : State} {req : Request}

theorem not_knows_iff {x : ObjId} : ¬ s.knows x ↔
    s.small_fifo.q.lookup x = none ∧ s.main_fifo.q.lookup x = none ∧ s.remembers x = false := by
  simp [State.knows, S3FIFO_probe, and_assoc]

def State.count (s : State) : Nat := s.small_fifo.q.entries.length + s.main_fifo.q.entries.length

def Sized (s : State) : Prop := ∀ x o, S3FIFO_probe s x = some o → 1 ≤ o.obj_size

structure Evicts (s s' : State) : Prop where
  inv : Inv s'
  resident : ∀ x o', S3FIFO_probe s' x = some o' → ∃ o, S3FIFO_probe s x = some o ∧ o.obj_size = o'.obj_size
  known : ∀ x, s'.knows x → s.knows x
  cache_size : s'.cache_size = s.cache_size
  small_size : s'.small_fifo.cache_size = s.small_fifo.cache_size
  main_size : s'.main_fifo.cache_size = s.main_fifo.cache_size
  occupied : Sized s → s'.S3FIFO_get_occupied_byte ≤ s.S3FIFO_get_occupied_byte

theorem Evicts.refl (h : Inv s) : Evicts s s :=
  ⟨h, fun _ o ho => ⟨o, ho, rfl⟩, fun _ hx => hx, rfl, rfl, rfl, fun _ => le_rfl⟩

theorem Evicts.sized (h : Evicts s s') (hs : Sized s) : Sized s' := by
  intro x o ho
  obtain ⟨o0, ho0, hsize⟩ := h.resident x o ho
  rw [← hsize]
  exact hs x o0 ho0

theorem Evicts.trans {t u : State} (h1 : Evicts s t) (h2 : Evicts t u) : Evicts s u where
  inv := h2.inv
  resident x o' ho' := by
    obtain ⟨o, ho, hsize⟩ := h2.resident x o' ho'
    obtain ⟨o0, ho0, hsize0⟩ := h1.resident x o ho
    exact ⟨o0, ho0, hsize0.trans hsize⟩
  known x hx := h1.known x (h2.known x hx)
  cache_size := h2.cache_size.trans h1.cache_size
  small_size := h2.small_size.trans h1.small_size
  main_size := h2.main_size.trans h1.main_size
  occupied hs := (h2.occupied (h1.sized hs)).trans (h1.occupied hs)

theorem remove_from_ghost_spec (h : ∀ g ∈ s.ghost_fifo, g.Inv) (id : ObjId) :
    ∃ ghost, remove_from_ghost s id = ({ s with ghost_fifo := ghost }, s.remembers id) ∧ (∀ g ∈ ghost, g.Inv) ∧
      ∀ s' : State, s'.ghost_fifo = ghost → ∀ x, s'.remembers x = (x ≠ id && s.remembers x) := by
  unfold remove_from_ghost State.remembers
  cases hg : s.ghost_fifo with
  | none =>
    refine ⟨none, ?_, by simp, fun s' hs' => by simp [hs']⟩
    cases s
    simp_all
  | some g =>
    refine ⟨some (g.FIFO_remove id).1, ?_, ?_, ?_⟩
    · simp [FIFO_remove_snd]
    · simpa using (FIFO_remove_spec (h g hg) id).1
    · intro s' hs' x
      simp only [hs', any_some, lookup_FIFO_remove]
      by_cases hx : x = id <;> simp [hx]

theorem insert_to_ghost_spec (h : ∀ g ∈ s.ghost_fifo, g.Inv) (req : Request) :
    ∃ ghost, insert_to_ghost s req = some { s with ghost_fifo := ghost } ∧ (∀ g ∈ ghost, g.Inv) ∧
      ∀ x, ({ s with ghost_fifo := ghost } : State).remembers x = true → x = req.obj_id ∨ s.remembers x = true := by
  unfold insert_to_ghost State.remembers
  cases hg : s.ghost_fifo with
  | none =>
    refine ⟨none, ?_, by simp, by simp⟩
    cases s
    simp_all
  | some g =>
    obtain ⟨g', hit, hget, hinv, hnew⟩ := FIFO_get_spec (h g hg) req
    refine ⟨some g', by simp [hget], by simpa using hinv, ?_⟩
    intro x hx
    simp only [any_some, lookup_isSome] at hx ⊢
    exact hnew x hx

/-! ## Eviction from the small queue -/

theorem evict_small_step_spec (h : Inv s) (hocc : 0 < s.small_fifo.occupied_byte) :
    ∃ s' ev, evict_small_step (s, false) = some (s', ev) ∧ Evicts s s' ∧
      s'.small_fifo.q.entries.length + 1 = s.small_fifo.q.entries.length ∧
      s'.main_fifo.q.entries.length = s.main_fifo.q.entries.length + if ev then 0 else 1 := by
  have hne := entries_ne_nil_of_occupied h.small hocc
  obtain ⟨e, hlast⟩ : ∃ e, s.small_fifo.FIFO_to_evict = some e := ⟨_, List.getLast?_eq_some_getLast hne⟩
  have hlook := lookup_to_evict hlast
  have hmain : s.main_fifo.q.lookup e.1 = none := (h.apart e.1).resolve_left (by simp [hlook])
  have hsmall := FIFO_remove_spec h.small e.1
  have hgone := fun x => lookup_FIFO_remove (c := s.small_fifo) e.1 x
  have hocc' : (s.small_fifo.FIFO_remove e.1).1.occupied_byte = s.small_fifo.occupied_byte - e.2.obj_size := by
    rw [occupied_FIFO_remove hlook, h.small_md]
    omega
  have hlen := length_FIFO_remove hlook
  unfold evict_small_step
  simp only [hlast, bind_eq_bind, bind_some]
  split_ifs with hfreq
  · -- the object moves on to the main queue
    have hput := fun x => lookup_FIFO_insert (c := s.main_fifo) (copy_cache_obj_to_request e) 0 x
    refine ⟨_, false, rfl, ?_, hlen, length_FIFO_insert 0 hmain⟩
    constructor
    · refine ⟨hsmall.1, h.main.insert 0 (lookup_eq_none.1 hmain), h.ghost, ?_, h.main_md, ?_, ?_⟩
      · simp [h.small_md]
      · grind [copy_cache_obj_to_request, h.apart]
      · grind [copy_cache_obj_to_request, State.remembers, h.forgotten]
    · grind [S3FIFO_probe, copy_cache_obj_to_request]
    · grind [S3FIFO_probe, State.knows, State.remembers, copy_cache_obj_to_request]
    · rfl
    · simp
    · rfl
    · have hmd := h.main_md
      simp only [State.S3FIFO_get_occupied_byte, Fifo.FIFO_insert, copy_cache_obj_to_request] at hocc' ⊢
      omega
  · -- the object goes, and its id is remembered
    obtain ⟨ghost, hput, hghost, hnew⟩ := insert_to_ghost_spec h.ghost (copy_cache_obj_to_request e)
    rw [hput]
    refine ⟨_, true, rfl, ?_, hlen, rfl⟩
    constructor
    · refine ⟨hsmall.1, h.main, hghost, ?_, h.main_md, ?_, ?_⟩
      · simp [copy_cache_obj_to_request, h.small_md]
      · grind [copy_cache_obj_to_request, h.apart]
      · grind [copy_cache_obj_to_request, State.remembers, h.forgotten]
    · grind [S3FIFO_probe, copy_cache_obj_to_request]
    · grind [S3FIFO_probe, State.knows, State.remembers, copy_cache_obj_to_request]
    · rfl
    · simp
    · rfl
    · intro hs
      have hsize := hs e.1 e.2 (by simp [S3FIFO_probe, hlook])
      simp only [State.S3FIFO_get_occupied_byte, copy_cache_obj_to_request] at hocc' ⊢
      omega

theorem S3FIFO_evict_small_spec (h : Inv s) :
    ∃ s', S3FIFO_evict_small s = some s' ∧ Evicts s s' ∧ s'.count ≤ s.count ∧
      (s'.count < s.count ∨ s'.count = s.count ∧ s'.small_fifo.occupied_byte ≤ 0) ∧
      s'.small_fifo.q.entries.length ≤ s.small_fifo.q.entries.length := by
  let I : State × Bool → Prop := fun w => Evicts s w.1 ∧
    (if w.2 then w.1.count < s.count else w.1.count = s.count) ∧
    w.1.small_fifo.q.entries.length ≤ s.small_fifo.q.entries.length
  have hbody : ∀ w, I w → (!w.2 && w.1.small_fifo.occupied_byte > 0) = true →
      ∃ w', evict_small_step w = some w' ∧ I w' ∧
        w'.1.small_fifo.q.entries.length < w.1.small_fifo.q.entries.length := by
    rintro ⟨t, ev⟩ ⟨hev, hcount, hsmall⟩ hcond
    simp only [Bool.and_eq_true, Bool.not_eq_eq_eq_not, Bool.not_true, decide_eq_true_eq] at hcond
    obtain ⟨rfl, hocc⟩ := hcond
    dsimp only at hev hocc hsmall
    obtain ⟨t', ev', hstep, hev', hlen, hlen'⟩ := evict_small_step_spec hev.inv hocc
    refine ⟨(t', ev'), hstep, ⟨hev.trans hev', ?_, by dsimp only; omega⟩, by dsimp only; omega⟩
    simp only [Bool.false_eq_true, if_false, State.count] at hcount ⊢
    cases ev' <;> simp at hlen' ⊢ <;> omega
  obtain ⟨⟨t, ev⟩, hloop, ⟨hev, hcount, hsmall⟩, hexit⟩ := whileLoop_total I
    (fun w => w.1.small_fifo.q.entries.length) hbody _ (s, false) ⟨.refl h, by simp, le_rfl⟩ le_rfl
  refine ⟨t, by simp [S3FIFO_evict_small, hloop], hev, ?_, ?_, hsmall⟩
  · dsimp only at hcount
    split_ifs at hcount <;> omega
  · cases ev with
    | true => exact .inl (by simpa using hcount)
    | false =>
      exact .inr ⟨by simpa using hcount, by simpa using hexit⟩

theorem chances_insert {c : Fifo Nat} {freq : Nat} (h : c.q.lookup req.obj_id = none) :
    chances (c.FIFO_insert req freq) = min freq 3 + 1 + chances c := by
  unfold chances Fifo.FIFO_insert
  rw [entries_insert_of_notMem (lookup_eq_none.1 h)]
  rfl

theorem chances_remove {c : Fifo Nat} {id : ObjId} {o : FifoObj Nat} (h : c.q.lookup id = some o) :
    chances c = min o.md 3 + 1 + chances (c.FIFO_remove id).1 := by
  unfold chances Fifo.FIFO_remove
  rw [h]
  exact ((Table.perm_erase h).map _).sum_eq

section

variable (h : Inv s)
include h

theorem evict_main_step_spec (hocc : 0 < s.main_fifo.occupied_byte) :
    ∃ s' ev, evict_main_step (s, false) = some (s', ev) ∧ Evicts s s' ∧ s'.small_fifo = s.small_fifo ∧
      s'.main_fifo.q.entries.length + (if ev then 1 else 0) = s.main_fifo.q.entries.length ∧
      chances s'.main_fifo < chances s.main_fifo := by
  have hne := entries_ne_nil_of_occupied h.main hocc
  obtain ⟨e, hlast⟩ : ∃ e, s.main_fifo.FIFO_to_evict = some e := ⟨_, List.getLast?_eq_some_getLast hne⟩
  have hlook := lookup_to_evict hlast
  have hmain := FIFO_remove_spec h.main e.1
  have hgone := fun x => lookup_FIFO_remove (c := s.main_fifo) e.1 x
  have hocc' : (s.main_fifo.FIFO_remove e.1).1.occupied_byte = s.main_fifo.occupied_byte - e.2.obj_size := by
    rw [occupied_FIFO_remove hlook, h.main_md]
    omega
  have hlen := length_FIFO_remove hlook
  have hchances := chances_remove hlook
  unfold evict_main_step
  simp only [hlast, bind_eq_bind, bind_some]
  split_ifs with hfreq
  · -- the object goes round once more, under the same id
    set c := (s.main_fifo.FIFO_remove e.1).1
    have hmiss : c.q.lookup e.1 = none := by simp [hgone]
    have hput := fun x => lookup_FIFO_insert (c := c) (copy_cache_obj_to_request e) (min e.2.md 3 - 1) x
    refine ⟨_, false, rfl, ?_, rfl, ?_, ?_⟩
    · constructor
      · refine ⟨h.small, hmain.1.insert _ (lookup_eq_none.1 hmiss), h.ghost, h.small_md, ?_, ?_, ?_⟩
        · simp [Fifo.FIFO_insert, c, h.main_md]
        · grind [copy_cache_obj_to_request, h.apart]
        · grind [copy_cache_obj_to_request, State.remembers, h.forgotten]
      · grind [S3FIFO_probe, copy_cache_obj_to_request, h.apart]
      · grind [S3FIFO_probe, State.knows, State.remembers, copy_cache_obj_to_request]
      · rfl
      · rfl
      · simp [Fifo.FIFO_insert, c]
      · have hmd : c.obj_md_size = 0 := by simp [c, h.main_md]
        simp only [State.S3FIFO_get_occupied_byte, Fifo.FIFO_insert, copy_cache_obj_to_request]
        omega
    · rw [length_FIFO_insert _ hmiss]
      simpa using hlen
    · rw [hchances, chances_insert hmiss]
      omega
  · refine ⟨_, true, rfl, ?_, rfl, hlen, ?_⟩
    · constructor
      · refine ⟨h.small, hmain.1, h.ghost, h.small_md, by simp [h.main_md], ?_, ?_⟩
        · grind [h.apart]
        · grind [State.remembers, h.forgotten]
      · grind [S3FIFO_probe]
      · grind [S3FIFO_probe, State.knows, State.remembers]
      · rfl
      · rfl
      · simp
      · intro hs
        have hsmall := (h.apart e.1).resolve_right (by simp [hlook])
        have hsize := hs e.1 e.2 (by simp [S3FIFO_probe, hlook, hsmall])
        simp only [State.S3FIFO_get_occupied_byte]
        omega
    · dsimp only
      omega

theorem S3FIFO_evict_main_spec :
    ∃ s', S3FIFO_evict_main s = some s' ∧ Evicts s s' ∧ s'.small_fifo = s.small_fifo ∧ s'.count ≤ s.count ∧
      (s'.count < s.count ∨ s'.count = s.count ∧ s'.main_fifo.occupied_byte ≤ 0) := by
  let I : State × Bool → Prop := fun w => Evicts s w.1 ∧ w.1.small_fifo = s.small_fifo ∧
    if w.2 then w.1.count < s.count else w.1.count = s.count
  have hbody : ∀ w, I w → (!w.2 && w.1.main_fifo.occupied_byte > 0) = true →
      ∃ w', evict_main_step w = some w' ∧ I w' ∧ chances w'.1.main_fifo < chances w.1.main_fifo := by
    rintro ⟨t, ev⟩ ⟨hev, hsmall, hcount⟩ hcond
    simp only [Bool.and_eq_true, Bool.not_eq_eq_eq_not, Bool.not_true, decide_eq_true_eq] at hcond
    obtain ⟨rfl, hocc⟩ := hcond
    obtain ⟨t', ev', hstep, hev', hsmall', hlen, hless⟩ := evict_main_step_spec hev.inv hocc
    refine ⟨(t', ev'), hstep, ⟨hev.trans hev', hsmall'.trans hsmall, ?_⟩, hless⟩
    simp only [Bool.false_eq_true, if_false, State.count, hsmall'] at hcount ⊢
    cases ev' <;> simp at hlen ⊢ <;> omega
  obtain ⟨⟨t, ev⟩, hloop, ⟨hev, hsmall, hcount⟩, hexit⟩ := whileLoop_total I
    (fun w => chances w.1.main_fifo) hbody _ (s, false) ⟨.refl h, rfl, by simp⟩ le_rfl
  refine ⟨t, by simp [S3FIFO_evict_main, hloop], hev, hsmall, ?_, ?_⟩
  · dsimp only at hcount
    split_ifs at hcount <;> omega
  · cases ev with
    | true => exact .inl (by simpa using hcount)
    | false =>
      exact .inr ⟨by simpa using hcount, by simpa using hexit⟩

/-! ## The eviction of one object -/

theorem Inv.with_flag : Inv { s with has_evicted := true } :=
  { h with }

theorem S3FIFO_evict_spec :
    ∃ s', S3FIFO_evict s = some s' ∧ Evicts s s' ∧ s'.count ≤ s.count ∧
      s'.small_fifo.q.entries.length ≤ s.small_fifo.q.entries.length := by
  unfold S3FIFO_evict
  dsimp only
  split_ifs
  · obtain ⟨s', hs', hev, hsmall, hle, -⟩ := S3FIFO_evict_main_spec h.with_flag
    exact ⟨s', hs', { hev with }, hle,
      by rw [hsmall]⟩
  · obtain ⟨s', hs', hev, hle, -, hsmall⟩ := S3FIFO_evict_small_spec h.with_flag
    exact ⟨s', hs', { hev with }, hle, hsmall⟩

section

variable (hs : Sized s)
include hs

theorem Sized.small : (s.small_fifo.q.entries.length : Int) ≤ s.small_fifo.occupied_byte := by
  apply length_le_occupied h.small (le_of_eq h.small_md.symm)
  intro x o ho
  exact hs x o (by simp [S3FIFO_probe, ho])

theorem Sized.main : (s.main_fifo.q.entries.length : Int) ≤ s.main_fifo.occupied_byte := by
  apply length_le_occupied h.main (le_of_eq h.main_md.symm)
  intro x o ho
  have hsmall := (h.apart x).resolve_right (by simp [ho])
  exact hs x o (by simp [S3FIFO_probe, ho, hsmall])

theorem S3FIFO_evict_progress (hmain : 0 < s.main_fifo.cache_size)
    (hne : 0 < s.count) (hev : S3FIFO_evict s = some s') :
    s'.count < s.count ∨ s'.count = s.count ∧ s'.small_fifo.q.entries.length = 0 ∧ 0 < s.small_fifo.q.entries.length := by
  have hs' : Sized { s with has_evicted := true } := hs
  have hsmall := Sized.small h hs
  unfold S3FIFO_evict at hev
  dsimp only at hev
  split_ifs at hev with hcond
  · left
    obtain ⟨t, ht, he, hkept, -, hless⟩ := S3FIFO_evict_main_spec h.with_flag
    obtain rfl : t = s' := some.inj (ht.symm.trans hev)
    rcases hless with hless | ⟨heq, hocc⟩
    · exact hless
    · -- the main queue was empty, so this branch was taken because both were
      exfalso
      have hleft := Sized.main he.inv (he.sized hs')
      simp only [State.count, hkept] at heq hne
      have hnil : s.main_fifo.q.entries = [] := List.length_eq_zero_iff.1 (by omega)
      have hzero : ¬ 0 < s.main_fifo.occupied_byte := fun hpos => entries_ne_nil_of_occupied h.main hpos hnil
      omega
  · obtain ⟨t, ht, he, -, hless, -⟩ := S3FIFO_evict_small_spec h.with_flag
    obtain rfl : t = s' := some.inj (ht.symm.trans hev)
    refine hless.imp id fun ⟨heq, hocc⟩ => ?_
    have hleft := Sized.small he.inv (he.sized hs')
    have hpos : 0 < s.small_fifo.occupied_byte := by omega
    exact ⟨heq, by omega, List.length_pos_iff.2 (entries_ne_nil_of_occupied h.small hpos)⟩

theorem S3FIFO_evict_twice {s1 s2 : State} (hmain : 0 < s.main_fifo.cache_size)
    (hne : 0 < s.count) (h1 : S3FIFO_evict s = some s1) (h2 : S3FIFO_evict s1 = some s2) : s2.count < s.count := by
  obtain ⟨t, ht, he, -⟩ := S3FIFO_evict_spec h
  obtain rfl : t = s1 := some.inj (ht.symm.trans h1)
  obtain ⟨u, hu, -, hle, -⟩ := S3FIFO_evict_spec he.inv
  obtain rfl : u = s2 := some.inj (hu.symm.trans h2)
  rcases S3FIFO_evict_progress h hs hmain hne h1 with hless | ⟨heq, hempty, -⟩
  · omega
  · rcases S3FIFO_evict_progress he.inv (he.sized hs) (by rw [he.main_size]; exact hmain) (by omega) h2 with hless | hless
    · omega
    · omega

end

end

/-! ## Lookup and insertion -/

/-- Nothing is known of the id, between a lookup that missed it and its insertion. -/
structure Missing (id : ObjId) (s : State) : Prop where
  inv : Inv s
  unknown : ¬ s.knows id

def sizes (s : State) : Int × Int × Int := (s.cache_size, s.small_fifo.cache_size, s.main_fifo.cache_size)

theorem S3FIFO_find_eq {ghost : Option (Fifo Nat)}
    (hsmall : s.small_fifo.q.lookup req.obj_id = none)
    (hremove : remove_from_ghost { s with hit_on_ghost := false } req.obj_id =
      ({ s with hit_on_ghost := false, ghost_fifo := ghost }, s.remembers req.obj_id)) :
    S3FIFO_find s req = match s.main_fifo.q.lookup req.obj_id with
      | some obj => ({ s with
          hit_on_ghost := s.remembers req.obj_id
          ghost_fifo := ghost
          main_fifo := s.main_fifo.set_md req.obj_id obj (obj.md + 1) }, true)
      | none => ({ s with hit_on_ghost := s.remembers req.obj_id, ghost_fifo := ghost }, false) := by
  unfold S3FIFO_find
  dsimp only
  rw [hsmall]
  rw [hremove]
  cases s.remembers req.obj_id <;> simp only [Bool.false_eq_true, if_false, if_true] <;>
    cases s.main_fifo.q.lookup req.obj_id <;> rfl

theorem S3FIFO_find_spec (h : Inv s) (req : Request) :
    (S3FIFO_find s req).2 = (S3FIFO_probe s req.obj_id).isSome ∧ Inv (S3FIFO_find s req).1 ∧
      (∀ x, (S3FIFO_probe (S3FIFO_find s req).1 x).map (·.obj_size) = (S3FIFO_probe s x).map (·.obj_size)) ∧
      (S3FIFO_probe s req.obj_id = none → ¬ (S3FIFO_find s req).1.knows req.obj_id) ∧
      (S3FIFO_find s req).1.S3FIFO_get_occupied_byte = s.S3FIFO_get_occupied_byte ∧
      sizes (S3FIFO_find s req).1 = sizes s := by
  cases hsmall : s.small_fifo.q.lookup req.obj_id with
  | some obj =>
    have hset := lookup_set_md hsmall (obj.md + 1)
    have hfind : S3FIFO_find s req =
        ({ s with hit_on_ghost := false, small_fifo := s.small_fifo.set_md req.obj_id obj (obj.md + 1) }, true) := by
      simp [S3FIFO_find, hsmall]
    rw [hfind]
    refine ⟨by simp [S3FIFO_probe, hsmall], ?_, ?_, ?_, rfl, rfl⟩
    · refine { h with small := h.small.set_md hsmall _, apart := ?_, forgotten := ?_ }
      · grind [h.apart]
      · grind [State.remembers, h.forgotten]
    · grind [S3FIFO_probe]
    · simp [S3FIFO_probe, hsmall]
  | none =>
    obtain ⟨ghost, hremove, hinv, hleft⟩ :=
      remove_from_ghost_spec (s := { s with hit_on_ghost := false }) h.ghost req.obj_id
    have hfind := S3FIFO_find_eq hsmall hremove
    cases hmain : s.main_fifo.q.lookup req.obj_id with
    | some obj =>
      rw [hmain] at hfind
      have hset := lookup_set_md hmain (obj.md + 1)
      rw [hfind]
      refine ⟨by simp [S3FIFO_probe, hmain], ?_, ?_, ?_, rfl, rfl⟩
      · refine ⟨h.small, h.main.set_md hmain _, hinv, h.small_md, h.main_md, ?_, ?_⟩
        · grind [h.apart]
        · intro x hx
          rw [hleft _ rfl] at hx
          simp only [Bool.and_eq_true, decide_eq_true_eq] at hx
          have hold := h.forgotten x hx.2
          rw [hset, if_neg hx.1]
          exact hold
      · grind [S3FIFO_probe]
      · simp [S3FIFO_probe, hmain]
    | none =>
      rw [hmain] at hfind
      rw [hfind]
      refine ⟨by simp [S3FIFO_probe, hsmall, hmain], ?_, fun _ => rfl, ?_, rfl, rfl⟩
      · refine { h with ghost := hinv, forgotten := ?_ }
        intro x hx
        rw [hleft _ rfl] at hx
        simp only [Bool.and_eq_true, decide_eq_true_eq] at hx
        exact h.forgotten x hx.2
      · intro _
        rw [not_knows_iff]
        refine ⟨hsmall, hmain, ?_⟩
        rw [hleft _ rfl]
        simp

theorem S3FIFO_insert_spec (h : Missing req.obj_id s) :
    Inv (S3FIFO_insert s req) ∧
      (∀ x ≠ req.obj_id, S3FIFO_probe (S3FIFO_insert s req) x = S3FIFO_probe s x) ∧
      (∀ o, S3FIFO_probe (S3FIFO_insert s req) req.obj_id = some o → o.obj_size = req.obj_size) ∧
      ((S3FIFO_insert s req).S3FIFO_get_occupied_byte = s.S3FIFO_get_occupied_byte ∨
        (S3FIFO_insert s req).S3FIFO_get_occupied_byte = s.S3FIFO_get_occupied_byte + req.obj_size) ∧
      sizes (S3FIFO_insert s req) = sizes s := by
  obtain ⟨hi, hunknown⟩ := h
  obtain ⟨hsmall, hmain, hghost⟩ := not_knows_iff.1 hunknown
  have hputs := lookup_FIFO_insert (c := s.small_fifo) req 0
  have hputm := lookup_FIFO_insert (c := s.main_fifo) req 0
  have hinm : ∀ s' : State, s'.small_fifo = s.small_fifo → s'.ghost_fifo = s.ghost_fifo →
      s'.main_fifo = s.main_fifo.FIFO_insert req 0 → s'.cache_size = s.cache_size →
      Inv s' ∧ (∀ x ≠ req.obj_id, S3FIFO_probe s' x = S3FIFO_probe s x) ∧
      (∀ o, S3FIFO_probe s' req.obj_id = some o → o.obj_size = req.obj_size) ∧
      s'.S3FIFO_get_occupied_byte = s.S3FIFO_get_occupied_byte + req.obj_size ∧ sizes s' = sizes s := by
    intro s' h1 h2 h3 h4
    refine ⟨⟨by rw [h1]; exact hi.small, ?_, by rw [h2]; exact hi.ghost, by rw [h1]; exact hi.small_md, ?_, ?_, ?_⟩,
      ?_, ?_, ?_, ?_⟩
    · rw [h3]
      exact hi.main.insert 0 (lookup_eq_none.1 hmain)
    · rw [h3]
      exact hi.main_md
    · grind [hi.apart]
    · grind [State.remembers, hi.forgotten]
    · grind [S3FIFO_probe]
    · grind [S3FIFO_probe]
    · unfold State.S3FIFO_get_occupied_byte
      rw [h1, h3]
      have hmd := hi.main_md
      unfold Fifo.FIFO_insert
      dsimp only
      omega
    · unfold sizes
      rw [h1, h3, h4]
      rfl
  unfold S3FIFO_insert
  split_ifs
  · obtain ⟨h1, h2, h3, h4, h5⟩ := hinm { s with hit_on_ghost := false, main_fifo := s.main_fifo.FIFO_insert req 0 } rfl rfl rfl rfl
    exact ⟨h1, h2, h3, .inr h4, h5⟩
  · refine ⟨hi, fun _ _ => rfl, ?_, .inl rfl, rfl⟩
    grind [S3FIFO_probe]
  · obtain ⟨h1, h2, h3, h4, h5⟩ := hinm { s with main_fifo := s.main_fifo.FIFO_insert req 0 } rfl rfl rfl rfl
    exact ⟨h1, h2, h3, .inr h4, h5⟩
  · refine ⟨{ hi with small := hi.small.insert 0 (lookup_eq_none.1 hsmall), apart := ?_, forgotten := ?_ },
      ?_, ?_, .inr ?_, rfl⟩
    · grind [hi.apart]
    · grind [State.remembers, hi.forgotten]
    · grind [S3FIFO_probe]
    · grind [S3FIFO_probe]
    · have hmd := hi.small_md
      unfold State.S3FIFO_get_occupied_byte Fifo.FIFO_insert
      dsimp only
      omega

/-! ## Gets -/

structure Fits (s : State) : Prop where
  inv : Inv s
  sized : Sized s
  fits : s.S3FIFO_get_occupied_byte ≤ s.cache_size
  main_pos : 0 < s.main_fifo.cache_size

def effort (s : State) : Nat := 2 * s.small_fifo.q.entries.length + s.main_fifo.q.entries.length

theorem S3FIFO_evict_effort (h : Inv s) (hs : Sized s) (hmain : 0 < s.main_fifo.cache_size)
    (hne : 0 < s.count) : ∃ s', S3FIFO_evict s = some s' ∧ Evicts s s' ∧ effort s' < effort s := by
  obtain ⟨s', hs', hev, -, hsmall⟩ := S3FIFO_evict_spec h
  refine ⟨s', hs', hev, ?_⟩
  have hless := S3FIFO_evict_progress h hs hmain hne hs'
  unfold effort
  unfold State.count at hless
  omega

theorem count_pos_of_occupied (h : Inv s) (hocc : 0 < s.S3FIFO_get_occupied_byte) : 0 < s.count := by
  unfold State.S3FIFO_get_occupied_byte at hocc
  unfold State.count
  rcases lt_or_ge 0 s.small_fifo.occupied_byte with hpos | hneg
  · have hlen := List.length_pos_iff.2 (entries_ne_nil_of_occupied h.small hpos)
    omega
  · have hlen := List.length_pos_iff.2 (entries_ne_nil_of_occupied h.main (by omega))
    omega

theorem main_pos_of_sizes {t : State} (h : sizes t = sizes s) (hs : 0 < s.main_fifo.cache_size) :
    0 < t.main_fifo.cache_size := by
  simp only [sizes, Prod.mk.injEq] at h
  rw [h.2.2]
  exact hs

theorem S3FIFO_get_spec (allows : Int → Request → Bool) (h : Fits s)
    (hsize : 1 ≤ req.obj_size) : ∃ s' hit, S3FIFO_get allows s req = some (s', hit) ∧ Fits s' ∧ sizes s' = sizes s := by
  let Ready : State → Prop := fun t => Missing req.obj_id t ∧ Sized t ∧ sizes t = sizes s
  let Fine : State → Prop := fun t => Fits t ∧ sizes t = sizes s
  apply CacheOps.cache_get_base_total (fun t => t = s) (fun t => Ready t ∧ Fine t)
    (fun t => Ready t ∧ req.obj_size ≤ t.cache_size) Fine effort (fun _ _ => le_rfl) ?_ ?_ ?_ ?_ rfl
  · rintro t rfl
    have hcount : Inv { t with n_req := t.n_req + 1 } :=
      { h.inv with }
    obtain ⟨hhit, hinv, hprobe, hmiss, hocc, hsizes⟩ := S3FIFO_find_spec hcount req
    set s' := (S3FIFO_find { t with n_req := t.n_req + 1 } req).1
    have hsized : Sized s' := by
      intro x o ho
      have hsame := hprobe x
      rw [ho, map_some, eq_comm, map_eq_some_iff] at hsame
      obtain ⟨o', ho', hsame⟩ := hsame
      rw [← hsame]
      exact h.sized x o' ho'
    have hfine : Fine s' := by
      simp only [sizes, Prod.mk.injEq] at hsizes
      refine ⟨⟨hinv, hsized, ?_, ?_⟩, by simp [sizes, hsizes]⟩
      · rw [hocc, hsizes.1]
        exact h.fits
      · rw [hsizes.2.2]
        exact h.main_pos
    refine ⟨s', (S3FIFO_find { t with n_req := t.n_req + 1 } req).2, rfl, ?_⟩
    rw [hhit]
    split_ifs with hit
    · exact hfine
    · exact ⟨⟨⟨hinv, hmiss (by simpa using hit)⟩, hsized, hsizes⟩, hfine⟩
  · rintro t ⟨hready, hfine⟩
    refine ⟨t, _, rfl, ?_⟩
    split_ifs with hcan
    · refine ⟨hready, ?_⟩
      simp only [S3FIFO_can_insert, Bool.and_eq_true, Bool.not_eq_eq_eq_not, Bool.not_true, decide_eq_false_iff_not] at hcan
      omega
    · exact hfine
  · rintro t ⟨⟨⟨hinv, hunknown⟩, hsized, hsizes⟩, hroom⟩ hfull
    rw [CacheOps.full_for_iff] at hfull
    have hne := count_pos_of_occupied hinv (by simp only [ops] at hfull; omega)
    have hmain := main_pos_of_sizes hsizes h.main_pos
    obtain ⟨t', hev, he, hless⟩ := S3FIFO_evict_effort hinv hsized hmain hne
    refine ⟨t', hev, ⟨⟨⟨he.inv, fun hx => hunknown (he.known _ hx)⟩, he.sized hsized, ?_⟩, ?_⟩, hless⟩
    · rw [← hsizes]
      simp [sizes, he.cache_size, he.small_size, he.main_size]
    · rw [he.cache_size]
      exact hroom
  · rintro t ⟨⟨hmissing, hsized, hsizes⟩, hroom⟩ hfull
    obtain ⟨hinv, hother, hnew, hocc, hsizes'⟩ := S3FIFO_insert_spec hmissing
    refine ⟨_, rfl, ⟨⟨hinv, ?_, ?_, main_pos_of_sizes (hsizes'.trans hsizes) h.main_pos⟩, hsizes'.trans hsizes⟩⟩
    · intro x o ho
      rcases eq_or_ne x req.obj_id with rfl | hx
      · rw [hnew o ho]
        exact hsize
      · exact hsized x o (hother x hx ▸ ho)
    · rw [CacheOps.full_for_false_iff] at hfull
      simp only [sizes, Prod.mk.injEq] at hsizes'
      simp only [ops] at hfull
      rcases hocc with hocc | hocc <;> rw [hocc] <;> omega

theorem S3FIFO_get_inv {allows : Int → Request → Bool} {hit : Bool} (h : Inv s)
    (hget : S3FIFO_get allows s req = some (s', hit)) : Inv s' := by
  apply CacheOps.cache_get_base_inv Inv (Missing req.obj_id) Inv ?_ ?_ ?_ ?_ h hget
  · intro t t' hit ht hfind
    have hcount : Inv { t with n_req := t.n_req + 1 } :=
      { ht with }
    obtain ⟨hhit, hinv, -, hmiss, -⟩ := S3FIFO_find_spec hcount req
    have heq : S3FIFO_find { t with n_req := t.n_req + 1 } req = (t', hit) := some.inj hfind
    rw [heq] at hhit hinv hmiss
    cases hit with
    | true => exact hinv
    | false => exact ⟨hinv, hmiss (by simpa using hhit.symm)⟩
  · intro t t' admitted ht hcan
    simp only [ops, some.injEq, Prod.mk.injEq] at hcan
    obtain ⟨rfl, -⟩ := hcan
    cases admitted with
    | true => exact ht
    | false => exact ht.inv
  · intro t t' ht _ hevict
    obtain ⟨u, hu, hev, -⟩ := S3FIFO_evict_spec ht.inv
    obtain rfl : u = t' := some.inj (hu.symm.trans hevict)
    exact ⟨hev.inv, fun hx => ht.unknown (hev.known _ hx)⟩
  · intro t t' ht _ hinsert
    simp only [ops, some.injEq] at hinsert
    exact hinsert ▸ (S3FIFO_insert_spec ht).1

theorem S3FIFO_remove_spec (h : Inv s) (id : ObjId) :
    ∃ ghost, S3FIFO_remove s id = ({ s with
        small_fifo := (s.small_fifo.FIFO_remove id).1, ghost_fifo := ghost, main_fifo := (s.main_fifo.FIFO_remove id).1 },
        (S3FIFO_probe s id).isSome || s.remembers id) ∧ (∀ g ∈ ghost, g.Inv) ∧
      ∀ s' : State, s'.ghost_fifo = ghost → ∀ x, s'.remembers x = (x ≠ id && s.remembers x) := by
  have hskip : ∀ {c : Fifo Nat}, c.q.lookup id = none → c.FIFO_remove id = (c, false) := by
    intro c hc
    simp [Fifo.FIFO_remove, hc]
  obtain ⟨ghost, hremove, hinv, hleft⟩ := remove_from_ghost_spec h.ghost id
  unfold S3FIFO_remove
  dsimp only
  rw [FIFO_remove_snd]
  rcases hsmall : s.small_fifo.q.lookup id with _ | o
  · rw [hskip hsmall, hremove]
    cases hghost : s.remembers id with
    | true =>
      have hmain := (h.forgotten id hghost).2
      refine ⟨ghost, ?_, hinv, fun s' hs' x => by rw [hleft s' hs' x]⟩
      rw [hskip hmain]
      simp
    | false =>
      refine ⟨ghost, ?_, hinv, fun s' hs' x => by rw [hleft s' hs' x]⟩
      simp [S3FIFO_probe, hsmall, FIFO_remove_snd]
  · have hmain : s.main_fifo.q.lookup id = none := (h.apart id).resolve_left (by simp [hsmall])
    have hghost : s.remembers id = false := by
      by_contra hg
      simp [(h.forgotten id (by simpa using hg)).1] at hsmall
    refine ⟨s.ghost_fifo, ?_, h.ghost, fun s' hs' x => ?_⟩
    · rw [hskip hmain]
      simp [S3FIFO_probe, hsmall]
    · have hsame : s'.remembers x = s.remembers x := by
        unfold State.remembers
        rw [hs']
      rw [hsame]
      by_cases hx : x = id <;> simp [hx, hghost]

theorem S3FIFO_remove_inv (h : Inv s) (id : ObjId) : Inv (S3FIFO_remove s id).1 := by
  obtain ⟨ghost, hremove, hinv, hleft⟩ := S3FIFO_remove_spec h id
  rw [hremove]
  have hgone := fun x => lookup_FIFO_remove (c := s.small_fifo) id x
  have hgone' := fun x => lookup_FIFO_remove (c := s.main_fifo) id x
  refine ⟨(FIFO_remove_spec h.small id).1, (FIFO_remove_spec h.main id).1, hinv, ?_, ?_, ?_, ?_⟩
  · simp [h.small_md]
  · simp [h.main_md]
  · grind [h.apart]
  · intro x hx
    rw [hleft _ rfl] at hx
    simp only [Bool.and_eq_true, decide_eq_true_eq] at hx
    grind [h.forgotten x hx.2]

/-! ## Runs -/

theorem S3FIFO_init_inv (cache_size small_fifo_size ghost_fifo_size move_to_main_threshold : Int) :
    Inv (S3FIFO_init cache_size small_fifo_size ghost_fifo_size move_to_main_threshold) := by
  refine ⟨init_inv _ _, init_inv _ _, ?_, rfl, rfl, fun x => .inl rfl, fun x _ => ⟨rfl, rfl⟩⟩
  intro g hg
  simp only [S3FIFO_init, mem_def, ite_none_right_eq_some, some.injEq] at hg
  rw [← hg.2]
  exact init_inv _ _

theorem S3FIFO_init_fits {cache_size small_fifo_size : Int} (ghost_fifo_size move_to_main_threshold : Int)
    (hsmall : 0 < small_fifo_size) (hmain : 0 < cache_size - small_fifo_size) :
    Fits (S3FIFO_init cache_size small_fifo_size ghost_fifo_size move_to_main_threshold) := by
  refine ⟨S3FIFO_init_inv _ _ _ _, ?_, ?_, hmain⟩
  · intro x o ho
    simp [S3FIFO_probe, S3FIFO_init] at ho
  · show (0 : Int) + 0 ≤ cache_size
    omega

theorem call_spec (allows : Int → Request → Bool) (h : Fits s) {c : Call} (hc : c.Sized) :
    ∃ s', call allows s c = some s' ∧ Fits s' ∧ s'.cache_size = s.cache_size := by
  cases c with
  | get req =>
    obtain ⟨s', hit, hget, hfits, hsizes⟩ := S3FIFO_get_spec allows h hc
    exact ⟨s', by simp [call, hget], hfits, congrArg Prod.fst hsizes⟩
  | evict =>
    obtain ⟨s', hs', hev, -⟩ := S3FIFO_evict_spec h.inv
    refine ⟨s', hs', ⟨hev.inv, hev.sized h.sized, ?_, ?_⟩, hev.cache_size⟩
    · rw [hev.cache_size]
      exact (hev.occupied h.sized).trans h.fits
    · rw [hev.main_size]
      exact h.main_pos

theorem Inv.n_obj (h : Inv s) : s.S3FIFO_get_n_obj = s.count := by
  unfold State.S3FIFO_get_n_obj State.count
  rw [h.small.n_obj, h.main.n_obj]
  omega

def Disjoint (s : State) : Prop :=
  (∀ x, ¬ (x ∈ s.small_fifo.q ∧ x ∈ s.main_fifo.q)) ∧
  ∀ g ∈ s.ghost_fifo, ∀ x ∈ g.q, x ∉ s.small_fifo.q ∧ x ∉ s.main_fifo.q

theorem Inv.disjoint (h : Inv s) : Disjoint s := by
  constructor
  · intro x
    have := h.apart x
    simp only [lookup_eq_none] at this
    tauto
  · intro g hg x hx
    have := h.forgotten x (by
      simp only [State.remembers, mem_def.1 hg]
      exact lookup_isSome.2 hx)
    simpa only [lookup_eq_none] using this

/-- Every run of gets and evictions returns. In the state it ends in the queues are disjoint and fit
into the cache, and if an object is there then two evictions return and free one at least. -/
theorem S3FIFO_queues {cache_size small_fifo_size : Int} (ghost_fifo_size move_to_main_threshold : Int)
    (hsmall : 0 < small_fifo_size) (hmain : 0 < cache_size - small_fifo_size) (allows : Int → Request → Bool)
    (calls : List Call) (hsized : ∀ c ∈ calls, c.Sized) :
    ∃ s, runs (call allows) (S3FIFO_init cache_size small_fifo_size ghost_fifo_size move_to_main_threshold) calls = some s ∧
      Disjoint s ∧ s.S3FIFO_get_occupied_byte ≤ cache_size ∧
      (0 < s.S3FIFO_get_n_obj → ∃ s₁ s₂, S3FIFO_evict s = some s₁ ∧ S3FIFO_evict s₁ = some s₂ ∧
        s₂.S3FIFO_get_n_obj < s.S3FIFO_get_n_obj ∧
        ∀ x, (S3FIFO_probe s₂ x).isSome → (S3FIFO_probe s x).isSome) := by
  obtain ⟨s, hrun, hfits, hsize⟩ := runs_total (fun s => Fits s ∧ s.cache_size = cache_size) Call.Sized
    (fun s c hs hc => by
      obtain ⟨s', hs', hfits, hsize⟩ := call_spec allows hs.1 hc
      exact ⟨s', hs', hfits, hsize.trans hs.2⟩)
    calls _ hsized ⟨S3FIFO_init_fits ghost_fifo_size move_to_main_threshold hsmall hmain, rfl⟩
  refine ⟨s, hrun, hfits.inv.disjoint, hsize ▸ hfits.fits, fun hne => ?_⟩
  obtain ⟨s₁, h1, hev1, -⟩ := S3FIFO_evict_spec hfits.inv
  obtain ⟨s₂, h2, hev2, -⟩ := S3FIFO_evict_spec hev1.inv
  refine ⟨s₁, s₂, h1, h2, ?_, ?_⟩
  · rw [hfits.inv.n_obj] at hne ⊢
    rw [hev2.inv.n_obj]
    exact_mod_cast S3FIFO_evict_twice hfits.inv hfits.sized hfits.main_pos (by exact_mod_cast hne) h1 h2
  · intro x hx
    obtain ⟨o, ho⟩ := isSome_iff_exists.1 hx
    obtain ⟨o', ho', -⟩ := (hev1.trans hev2).resident x o ho
    simp [ho']

def exampleCalls : List Call :=
  [.get { obj_id := 1 }, .get { obj_id := 1 }, .get { obj_id := 2 }, .get { obj_id := 3 }, .get { obj_id := 4 },
    .get { obj_id := 5 }, .get { obj_id := 6 }, .evict, .get { obj_id := 2 }]

theorem S3FIFO_queues_of_nine_calls :
    (∀ c ∈ exampleCalls, c.Sized) ∧
    ((runs (call fun _ _ => true) (S3FIFO_init 4 2 3 1) exampleCalls).map (·.S3FIFO_get_n_obj)) = some 4 ∧
    ∃ s, runs (call fun _ _ => true) (S3FIFO_init 4 2 3 1) exampleCalls = some s ∧ Disjoint s ∧
      s.S3FIFO_get_occupied_byte ≤ 4 := by
  have hsized : ∀ c ∈ exampleCalls, c.Sized := by simp [exampleCalls, Call.Sized]
  obtain ⟨s, hrun, hdis, hocc, -⟩ := S3FIFO_queues 3 1 (by decide : (0 : Int) < 2)
    (by decide : (0 : Int) < 4 - 2) (fun _ _ => true) exampleCalls hsized
  exact ⟨hsized, by decide +kernel, s, hrun, hdis, hocc⟩

end CacheSim.S3fifo
