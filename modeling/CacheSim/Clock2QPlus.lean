import CacheSim.Fifo
import CacheSim.Lib.Double
import CacheSim.Admission

/-!
# Clock2Q+ (`Clock2QPlus.c`)

Objects enter a small FIFO queue, and a read counts only if it comes after the correlation window of its object. Objects
whose reads count move on to the main queue, the others leave an entry in the ghost queue.
-/

namespace CacheSim.Clock2QPlus

open Lib

/-- `Clock2QPlus_obj_metadata_t`, all zero in a new object -/
structure Metadata where
  /-- measured in number of objects inserted -/
  insertion_time : Int
  freq : Int
deriving DecidableEq, Inhabited

/-- `cache_t` with `Clock2QPlus_params_t` -/
structure State where
  cache_size : Int
  n_req : Int := 0
  fifo : Fifo Metadata
  /-- `NULL` if its size would not be positive -/
  fifo_ghost : Option (Fifo Metadata)
  main_cache : Fifo Metadata
  hit_on_ghost : Bool := false
  n_obj_admit_to_fifo : Int := 0
  move_to_main_threshold : Int
  /-- a double -/
  corr_window_size : ℚ
  has_evicted : Bool := false

/-- The sizes are the products of the ratios with the capacity, as `int64_t`, and the window is one as a double. -/
def Clock2QPlus_init (cache_size fifo_cache_size fifo_ghost_cache_size move_to_main_threshold : Int) (corr_window_size : ℚ) :
    State where
  cache_size := cache_size
  fifo := { cache_size := fifo_cache_size }
  fifo_ghost := if fifo_ghost_cache_size > 0 then some { cache_size := fifo_ghost_cache_size } else none
  main_cache := { cache_size := cache_size - fifo_cache_size }
  move_to_main_threshold := move_to_main_threshold
  corr_window_size := corr_window_size

variable (s : State)

def State.Clock2QPlus_get_occupied_byte : Int := s.fifo.occupied_byte + s.main_cache.occupied_byte

def State.remembers (id : ObjId) : Bool := s.fifo_ghost.any fun g => (g.q.lookup id).isSome

def Clock2QPlus_probe (id : ObjId) : Option (FifoObj Metadata) :=
  (s.fifo.q.lookup id).or (s.main_cache.q.lookup id)

def remove_from_ghost (id : ObjId) : State × Bool :=
  match s.fifo_ghost with
  | none => (s, false)
  | some g => ({ s with fifo_ghost := some (g.FIFO_remove id).1 }, (g.FIFO_remove id).2)

variable (req : Request)

def Clock2QPlus_find : State × Bool :=
  let s := { s with hit_on_ghost := false }
  match s.fifo.q.lookup req.obj_id with
  | some obj =>
    let time_since_insertion := s.n_obj_admit_to_fifo - obj.md.insertion_time
    if to_double time_since_insertion ≥ s.corr_window_size then
      ({ s with fifo := s.fifo.set_md req.obj_id obj { obj.md with freq := obj.md.freq + 1 } }, true)
    else (s, true)
  | none =>
    let (s, removed) := remove_from_ghost s req.obj_id
    let s := if removed then { s with hit_on_ghost := true } else s
    match s.main_cache.q.lookup req.obj_id with
    | some obj =>
      ({ s with main_cache := s.main_cache.set_md req.obj_id obj { obj.md with freq := obj.md.freq + 1 } }, true)
    | none => (s, false)

def Clock2QPlus_insert : State :=
  if s.hit_on_ghost then
    { s with hit_on_ghost := false, main_cache := s.main_cache.FIFO_insert req default }
  -- an object as large as the queue is not inserted at all
  else if req.obj_size ≥ s.fifo.cache_size then s
  else if !s.has_evicted && s.fifo.occupied_byte ≥ s.fifo.cache_size then
    { s with main_cache := s.main_cache.FIFO_insert req default }
  else
    let n_obj_admit_to_fifo := s.n_obj_admit_to_fifo + 1
    { s with
      n_obj_admit_to_fifo := n_obj_admit_to_fifo
      fifo := s.fifo.FIFO_insert req { insertion_time := n_obj_admit_to_fifo, freq := 0 } }

def insert_to_ghost : Option State :=
  match s.fifo_ghost with
  | none => some s
  | some g => (g.FIFO_get req).map fun r => { s with fifo_ghost := some r.1 }

def evict_fifo_step (w : State × Bool) : Option (State × Bool) := do
  let obj_to_evict ← w.1.fifo.FIFO_to_evict
  let req_local := copy_cache_obj_to_request obj_to_evict
  if obj_to_evict.2.md.freq ≥ w.1.move_to_main_threshold then
    return ({ w.1 with
      main_cache := w.1.main_cache.FIFO_insert req_local default
      fifo := (w.1.fifo.FIFO_remove req_local.obj_id).1 }, false)
  else
    let s ← insert_to_ghost w.1 req_local
    return ({ s with fifo := (s.fifo.FIFO_remove req_local.obj_id).1 }, true)

def Clock2QPlus_evict_fifo : Option State :=
  (whileLoop (fun w => !w.2 && w.1.fifo.occupied_byte > 0) evict_fifo_step s.fifo.q.entries.length (s, false)).map (·.1)

def evict_main_step (w : State × Bool) : Option (State × Bool) := do
  let obj_to_evict ← w.1.main_cache.FIFO_to_evict
  let freq := obj_to_evict.2.md.freq
  let main_cache := (w.1.main_cache.FIFO_remove obj_to_evict.1).1
  if freq ≥ 1 then
    return ({ w.1 with main_cache := main_cache.FIFO_insert (copy_cache_obj_to_request obj_to_evict) default }, false)
  else
    return ({ w.1 with main_cache := main_cache }, true)

def chances (c : Fifo Metadata) : Nat := (c.q.entries.map fun e => if e.2.md.freq ≥ 1 then 2 else 1).sum

def Clock2QPlus_evict_main : Option State :=
  (whileLoop (fun w => !w.2 && w.1.main_cache.occupied_byte > 0) evict_main_step (chances s.main_cache) (s, false)).map (·.1)

def Clock2QPlus_evict : Option State :=
  let s := { s with has_evicted := true }
  if s.main_cache.occupied_byte > s.main_cache.cache_size ∨ s.fifo.occupied_byte = 0 then
    Clock2QPlus_evict_main s
  else
    Clock2QPlus_evict_fifo s

/-! ## The user's call -/

def Clock2QPlus_can_insert : Bool := req.obj_size ≤ s.fifo.cache_size

def ops : CacheOps State where
  count_req s := { s with n_req := s.n_req + 1 }
  find s req := some (Clock2QPlus_find s req)
  can_insert s req := some (s, Clock2QPlus_can_insert s req)
  get_occupied_byte s := s.Clock2QPlus_get_occupied_byte
  obj_md_size _ := 0
  cache_size s := s.cache_size
  evict s _ := Clock2QPlus_evict s
  insert s req := some (Clock2QPlus_insert s req)

def Clock2QPlus_get : Option (State × Bool) :=
  ops.cache_get_base (fun s => 2 * s.fifo.q.entries.length + s.main_cache.q.entries.length) s req

/-!
## What Clock2Q+ admits

An eviction takes objects out of the two queues or moves them to the main queue, and the queues do not share an object.
-/

open Function
open Fifo (size_of_insert size_of_none size_of_remove size_of_some)

def size_of : ObjId → Option Int := both s.fifo.size_of s.main_cache.size_of

def resident (id : ObjId) : Bool := (Clock2QPlus_probe s id).isSome

theorem resident_eq (s : State) (id : ObjId) : resident s id = (size_of s id).isSome := by
  unfold resident Clock2QPlus_probe size_of both Fifo.size_of
  rw [Option.isSome_or, Option.isSome_or, Option.isSome_map, Option.isSome_map]

structure Inv (s : State) : Prop where
  fifo : s.fifo.Plain
  main : s.main_cache.Plain
  ghost : ∀ g ∈ s.fifo_ghost, g.Inv
  apart : ∀ x, s.fifo.size_of x = none ∨ s.main_cache.size_of x = none
  sized : ∀ x n, size_of s x = some n → 1 ≤ n
  fifo_size : s.fifo.cache_size ≤ s.cache_size
  main_size : 0 ≤ s.main_cache.cache_size

def fixed : Int × Int × Bool := (s.cache_size, s.fifo.cache_size, s.hit_on_ghost)

def effort : Nat := 2 * s.fifo.q.entries.length + s.main_cache.q.entries.length

structure Evicts (s s' : State) : Prop where
  inv : Inv s'
  within : Within (size_of s') (size_of s)
  fixed : fixed s' = fixed s
  effort : effort s' ≤ effort s

variable {s s' t : State} {req : Request}

theorem Evicts.refl (h : Inv s) : Evicts s s := ⟨h, .refl _, rfl, le_rfl⟩

theorem Evicts.trans (h1 : Evicts s s') (h2 : Evicts s' t) : Evicts s t :=
  ⟨h2.inv, h2.within.trans h1.within, h2.fixed.trans h1.fixed, h2.effort.trans h1.effort⟩

theorem Evicts.of_queues (h : Inv s) (hfifo : t.fifo.Plain) (hmain : t.main_cache.Plain) (hghost : ∀ g ∈ t.fifo_ghost, g.Inv)
    (hapart : ∀ x, t.fifo.size_of x = none ∨ t.main_cache.size_of x = none) (hwithin : Within (size_of t) (size_of s))
    (hfixed : Clock2QPlus.fixed t = Clock2QPlus.fixed s) (hsize : t.main_cache.cache_size = s.main_cache.cache_size)
    (heffort : Clock2QPlus.effort t ≤ Clock2QPlus.effort s) : Evicts s t := by
  have hcs := congrArg Prod.fst hfixed
  have hfs := congrArg (·.2.1) hfixed
  dsimp only [Clock2QPlus.fixed] at hcs hfs
  refine ⟨⟨hfifo, hmain, hghost, hapart, fun x n hx => h.sized x n (hwithin x n hx), ?_, ?_⟩, hwithin, hfixed, heffort⟩
  · rw [hcs, hfs]
    exact h.fifo_size
  · rw [hsize]
    exact h.main_size

theorem remove_from_ghost_spec (h : ∀ g ∈ s.fifo_ghost, g.Inv) (id : ObjId) :
    ∃ ghost, remove_from_ghost s id = ({ s with fifo_ghost := ghost }, s.remembers id) ∧ ∀ g ∈ ghost, g.Inv := by
  unfold remove_from_ghost State.remembers
  cases hg : s.fifo_ghost with
  | none =>
    refine ⟨none, ?_, by simp⟩
    cases s
    simp_all
  | some g =>
    refine ⟨some (g.FIFO_remove id).1, by simp [Fifo.FIFO_remove_snd], ?_⟩
    simpa using (Fifo.FIFO_remove_spec (h g hg) id).1

theorem insert_to_ghost_spec (h : ∀ g ∈ s.fifo_ghost, g.Inv) (req : Request) :
    ∃ ghost, insert_to_ghost s req = some { s with fifo_ghost := ghost } ∧ ∀ g ∈ ghost, g.Inv := by
  unfold insert_to_ghost
  cases hg : s.fifo_ghost with
  | none =>
    refine ⟨none, ?_, by simp⟩
    cases s
    simp_all
  | some g =>
    obtain ⟨g', hit, hget, hinv, -⟩ := Fifo.FIFO_get_spec (h g hg) req
    exact ⟨some g', by simp [hget], by simpa using hinv⟩

theorem evict_fifo_step_spec (h : Inv s) (hocc : 0 < s.fifo.occupied_byte) :
    ∃ s' ev, evict_fifo_step (s, false) = some (s', ev) ∧ Evicts s s' ∧ effort s' < effort s ∧
      s'.fifo.q.entries.length < s.fifo.q.entries.length := by
  obtain ⟨e, hlast, hlook⟩ := h.fifo.to_evict hocc
  have hsize := size_of_some hlook
  have hmain : s.main_cache.size_of e.1 = none := (h.apart e.1).resolve_left (by simp [hsize])
  have hlen := Fifo.length_FIFO_remove hlook
  have hkept := s.fifo.FIFO_remove_cache_size e.1
  unfold evict_fifo_step
  simp only [hlast, Option.bind_eq_bind, Option.bind_some]
  split_ifs with hfreq
  · -- the object moves on to the main queue
    have hnone : s.main_cache.q.lookup (copy_cache_obj_to_request e).obj_id = none := size_of_none.1 hmain
    have hlen' := Fifo.length_FIFO_insert default hnone
    have hless : effort { s with
        main_cache := s.main_cache.FIFO_insert (copy_cache_obj_to_request e) default
        fifo := (s.fifo.FIFO_remove e.1).1 } < effort s := by
      unfold effort
      dsimp only
      omega
    refine ⟨_, false, rfl, .of_queues h (h.fifo.remove e.1) (h.main.insert default hmain) h.ghost (fun x => ?_) ?_ ?_ rfl hless.le,
      hless, by dsimp only [copy_cache_obj_to_request]; omega⟩
    · rw [size_of_remove, size_of_insert]
      exact apart_move _ h.apart x
    · unfold size_of
      rw [size_of_remove, size_of_insert]
      exact (both_move hsize).symm ▸ .refl _
    · unfold fixed
      dsimp only [copy_cache_obj_to_request]
      rw [hkept]
  · -- the object goes
    obtain ⟨ghost, hput, hghost⟩ := insert_to_ghost_spec h.ghost (copy_cache_obj_to_request e)
    rw [hput]
    have hless : effort { s with fifo_ghost := ghost, fifo := (s.fifo.FIFO_remove e.1).1 } < effort s := by
      unfold effort
      dsimp only
      omega
    refine ⟨_, true, rfl, .of_queues h (h.fifo.remove e.1) h.main hghost (fun x => ?_) ?_ ?_ rfl hless.le, hless,
      by dsimp only [copy_cache_obj_to_request]; omega⟩
    · rw [size_of_remove]
      exact Within.apart (.erase _ _) (.refl _) h.apart x
    · unfold size_of
      rw [size_of_remove]
      dsimp only [copy_cache_obj_to_request]
      rw [both_erase_left e.1 hmain]
      exact .erase _ _
    · unfold fixed
      dsimp only [copy_cache_obj_to_request]
      rw [hkept]

theorem evict_fifo_spec (h : Inv s) (hocc : 0 < s.fifo.occupied_byte) :
    ∃ s', Clock2QPlus_evict_fifo s = some s' ∧ Evicts s s' ∧ effort s' < effort s := by
  -- the first round takes an object off, and the others do no harm
  let I : State × Bool → Prop := fun w => Evicts s w.1 ∧ (w = (s, false) ∨ effort w.1 < effort s)
  have hbody : ∀ w, I w → (!w.2 && w.1.fifo.occupied_byte > 0) = true →
      ∃ w', evict_fifo_step w = some w' ∧ I w' ∧ w'.1.fifo.q.entries.length < w.1.fifo.q.entries.length := by
    rintro ⟨t, ev⟩ ⟨hev, -⟩ hcond
    simp only [Bool.and_eq_true, Bool.not_eq_eq_eq_not, decide_eq_true_eq] at hcond
    obtain ⟨rfl, hpos⟩ := hcond
    obtain ⟨t', ev', hstep, hev', hless, hlen⟩ := evict_fifo_step_spec hev.inv hpos
    exact ⟨(t', ev'), hstep, ⟨hev.trans hev', .inr (hless.trans_le hev.effort)⟩, hlen⟩
  obtain ⟨⟨t, ev⟩, hloop, ⟨hev, hless⟩, hexit⟩ := whileLoop_total I
    (fun w => w.1.fifo.q.entries.length) hbody _ (s, false) ⟨.refl h, .inl rfl⟩ le_rfl
  refine ⟨t, by simp [Clock2QPlus_evict_fifo, hloop], hev, ?_⟩
  rcases hless with heq | hless
  · cases heq
    simp [hocc] at hexit
  · exact hless

/-! ## Eviction from the main queue -/

theorem chances_insert {c : Fifo Metadata} (h : c.q.lookup req.obj_id = none) :
    chances (c.FIFO_insert req default) = 1 + chances c := by
  unfold chances Fifo.FIFO_insert
  rw [AList.entries_insert_of_notMem (AList.lookup_eq_none.1 h)]
  rfl

theorem chances_remove {c : Fifo Metadata} {id : ObjId} {o : FifoObj Metadata} (h : c.q.lookup id = some o) :
    chances c = (if o.md.freq ≥ 1 then 2 else 1) + chances (c.FIFO_remove id).1 := by
  unfold chances Fifo.FIFO_remove
  rw [h]
  exact ((Table.perm_erase h).map _).sum_eq

section

variable (h : Inv s)
include h

theorem evict_main_step_spec (hocc : 0 < s.main_cache.occupied_byte) :
    ∃ s' ev, evict_main_step (s, false) = some (s', ev) ∧ Evicts s s' ∧
      (if ev then effort s' < effort s else s'.main_cache.occupied_byte = s.main_cache.occupied_byte) ∧
      chances s'.main_cache < chances s.main_cache := by
  obtain ⟨e, hlast, hlook⟩ := h.main.to_evict hocc
  have hsize := size_of_some hlook
  have hfifo : s.fifo.size_of e.1 = none := (h.apart e.1).resolve_right (by simp [hsize])
  have hlen := Fifo.length_FIFO_remove hlook
  have hchances := chances_remove hlook
  have hleft := h.main.remove e.1
  unfold evict_main_step
  simp only [hlast, Option.bind_eq_bind, Option.bind_some]
  split_ifs with hfreq
  · -- under the same id
    set c := (s.main_cache.FIFO_remove e.1).1
    have hmiss : c.size_of e.1 = none := by
      rw [size_of_remove]
      exact update_self ..
    have hsame : (c.FIFO_insert (copy_cache_obj_to_request e) default).size_of = s.main_cache.size_of := by
      rw [size_of_insert, size_of_remove]
      dsimp only [copy_cache_obj_to_request]
      rw [Function.update_idem, ← hsize, Function.update_eq_self]
    have hnone : c.q.lookup (copy_cache_obj_to_request e).obj_id = none := size_of_none.1 hmiss
    have hlen' := Fifo.length_FIFO_insert default hnone
    refine ⟨_, false, rfl, .of_queues h h.fifo (hleft.insert default hmiss) h.ghost ?_ ?_ rfl ?_ ?_, ?_, ?_⟩
    · rw [hsame]
      exact h.apart
    · unfold size_of
      rw [hsame]
      exact .refl _
    · exact Fifo.FIFO_remove_cache_size _
    · unfold effort
      dsimp only
      omega
    · have hocc' := h.main.occupied_remove hlook
      rw [if_neg Bool.false_ne_true]
      rw [hleft.occupied_insert, hocc']
      dsimp only [copy_cache_obj_to_request]
      omega
    · rw [if_pos hfreq] at hchances
      rw [chances_insert (size_of_none.1 hmiss)]
      omega
  · have hless : effort { s with main_cache := (s.main_cache.FIFO_remove e.1).1 } < effort s := by
      unfold effort
      dsimp only
      omega
    refine ⟨_, true, rfl, .of_queues h h.fifo hleft h.ghost (fun x => ?_) ?_ rfl ?_ hless.le, hless, ?_⟩
    · rw [size_of_remove]
      exact Within.apart (.refl _) (.erase _ _) h.apart x
    · unfold size_of
      rw [size_of_remove, both_update_right none hfifo]
      exact .erase _ _
    · exact Fifo.FIFO_remove_cache_size _
    · rw [if_neg hfreq] at hchances
      dsimp only
      omega

theorem evict_main_spec (hocc : 0 < s.main_cache.occupied_byte) :
    ∃ s', Clock2QPlus_evict_main s = some s' ∧ Evicts s s' ∧ effort s' < effort s := by
  let I : State × Bool → Prop := fun w => Evicts s w.1 ∧
    if w.2 then effort w.1 < effort s else w.1.main_cache.occupied_byte = s.main_cache.occupied_byte
  have hbody : ∀ w, I w → (!w.2 && w.1.main_cache.occupied_byte > 0) = true →
      ∃ w', evict_main_step w = some w' ∧ I w' ∧ chances w'.1.main_cache < chances w.1.main_cache := by
    rintro ⟨t, ev⟩ ⟨hev, hsame⟩ hcond
    simp only [Bool.and_eq_true, Bool.not_eq_eq_eq_not, decide_eq_true_eq] at hcond
    obtain ⟨rfl, hpos⟩ := hcond
    obtain ⟨t', ev', hstep, hev', hmore, hless⟩ := evict_main_step_spec hev.inv hpos
    refine ⟨(t', ev'), hstep, ⟨hev.trans hev', ?_⟩, hless⟩
    cases ev' with
    | true => exact lt_of_lt_of_le hmore hev.effort
    | false => exact hmore.trans hsame
  obtain ⟨⟨t, ev⟩, hloop, ⟨hev, hmore⟩, hexit⟩ := whileLoop_total I
    (fun w => chances w.1.main_cache) hbody _ (s, false) ⟨.refl h, rfl⟩ le_rfl
  refine ⟨t, by simp [Clock2QPlus_evict_main, hloop], hev, ?_⟩
  cases ev with
  | true => exact hmore
  | false =>
    rw [if_neg Bool.false_ne_true] at hmore
    dsimp only at hmore
    simp [hmore, hocc] at hexit

theorem occupied_nonneg : 0 ≤ s.fifo.occupied_byte ∧ 0 ≤ s.main_cache.occupied_byte := by
  refine ⟨h.fifo.stock.nonneg fun x n hx => h.sized x n ?_, h.main.stock.nonneg fun x n hx => h.sized x n ?_⟩
  · unfold size_of both
    rw [hx, Option.some_or]
  · unfold size_of both
    rw [(h.apart x).resolve_right (by simp [hx]), hx, Option.none_or]

theorem evict_spec (hocc : 0 < s.Clock2QPlus_get_occupied_byte) :
    ∃ s', Clock2QPlus_evict s = some s' ∧ Evicts s s' ∧ effort s' < effort s := by
  obtain ⟨hf, -⟩ := occupied_nonneg h
  have hflag : Evicts s { s with has_evicted := true } :=
    .of_queues h h.fifo h.main h.ghost h.apart (.refl _) rfl rfl le_rfl
  unfold State.Clock2QPlus_get_occupied_byte at hocc
  unfold Clock2QPlus_evict
  dsimp only
  split_ifs with hcond
  · have hmain := h.main_size
    have hpos : 0 < s.main_cache.occupied_byte := by omega
    obtain ⟨s', hs', hev, hless⟩ := evict_main_spec hflag.inv hpos
    exact ⟨s', hs', hflag.trans hev, hless⟩
  · have hpos : 0 < s.fifo.occupied_byte := by omega
    obtain ⟨s', hs', hev, hless⟩ := evict_fifo_spec hflag.inv hpos
    exact ⟨s', hs', hflag.trans hev, hless⟩

/-! ## Lookup and insertion -/

structure Keeps (s s' : State) : Prop where
  inv : Inv s'
  size_of : size_of s' = size_of s
  cache_size : s'.cache_size = s.cache_size
  fifo_size : s'.fifo.cache_size = s.fifo.cache_size
  occupied : s'.Clock2QPlus_get_occupied_byte = s.Clock2QPlus_get_occupied_byte

theorem Keeps.of_queues (hfifo : t.fifo.Plain) (hmain : t.main_cache.Plain) (hghost : ∀ g ∈ t.fifo_ghost, g.Inv)
    (hf : t.fifo.size_of = s.fifo.size_of) (hm : t.main_cache.size_of = s.main_cache.size_of) (hcs : t.cache_size = s.cache_size)
    (hfs : t.fifo.cache_size = s.fifo.cache_size) (hms : t.main_cache.cache_size = s.main_cache.cache_size) : Keeps s t := by
  have hsame : Clock2QPlus.size_of t = Clock2QPlus.size_of s := by
    unfold Clock2QPlus.size_of
    rw [hf, hm]
  have hfo := hfifo.stock.unique (hf ▸ h.fifo.stock)
  have hmo := hmain.stock.unique (hm ▸ h.main.stock)
  refine ⟨⟨hfifo, hmain, hghost, ?_, ?_, ?_, ?_⟩, hsame, hcs, hfs, ?_⟩
  · rw [hf, hm]
    exact h.apart
  · rw [hsame]
    exact h.sized
  · rw [hfs, hcs]
    exact h.fifo_size
  · rw [hms]
    exact h.main_size
  · unfold State.Clock2QPlus_get_occupied_byte
    rw [hfo, hmo]

theorem Inv.count_req : Inv { s with n_req := s.n_req + 1 } :=
  { h with }

theorem find_spec (req : Request) : ∃ s', Clock2QPlus_find s req = (s', (size_of s req.obj_id).isSome) ∧ Keeps s s' ∧
    (size_of s req.obj_id = none → s'.hit_on_ghost = s.remembers req.obj_id) := by
  unfold Clock2QPlus_find
  dsimp only
  cases hfifo : s.fifo.q.lookup req.obj_id with
  | some obj =>
    have hin : size_of s req.obj_id = some obj.obj_size := by
      unfold size_of both
      rw [size_of_some hfifo, Option.some_or]
    rw [hin]
    dsimp only
    split_ifs
    · exact ⟨_, rfl, .of_queues h (h.fifo.set_md hfifo _) h.main h.ghost (Fifo.size_of_set_md hfifo _) rfl rfl rfl rfl, nofun⟩
    · exact ⟨_, rfl, .of_queues h h.fifo h.main h.ghost rfl rfl rfl rfl rfl, nofun⟩
  | none =>
    obtain ⟨ghost, hremove, hghost⟩ := remove_from_ghost_spec (s := { s with hit_on_ghost := false }) h.ghost req.obj_id
    have hflag : (if s.remembers req.obj_id = true then
        ({ s with hit_on_ghost := true, fifo_ghost := ghost } : State) else { s with hit_on_ghost := false, fifo_ghost := ghost }) =
        { s with hit_on_ghost := s.remembers req.obj_id, fifo_ghost := ghost } := by
      cases s.remembers req.obj_id <;> rfl
    have hin : size_of s req.obj_id = s.main_cache.size_of req.obj_id := by
      unfold size_of both
      rw [size_of_none.2 hfifo, Option.none_or]
    have hknown : ({ s with hit_on_ghost := false } : State).remembers req.obj_id = s.remembers req.obj_id := rfl
    rw [hremove, hin]
    rw [hknown, hflag]
    cases hmain : s.main_cache.q.lookup req.obj_id with
    | some obj =>
      rw [size_of_some hmain]
      exact ⟨_, rfl, .of_queues h h.fifo (h.main.set_md hmain _) hghost rfl (Fifo.size_of_set_md hmain _) rfl rfl rfl, nofun⟩
    | none =>
      rw [size_of_none.2 hmain]
      exact ⟨_, rfl, .of_queues h h.fifo h.main hghost rfl rfl rfl rfl rfl, fun _ => rfl⟩

theorem insert_spec (hmiss : size_of s req.obj_id = none) (hsize : 1 ≤ req.obj_size)
    (htake : s.hit_on_ghost = true ∨ req.obj_size < s.fifo.cache_size) :
    Inv (Clock2QPlus_insert s req) ∧ size_of (Clock2QPlus_insert s req) = update (size_of s) req.obj_id (some req.obj_size) ∧
      (Clock2QPlus_insert s req).Clock2QPlus_get_occupied_byte = s.Clock2QPlus_get_occupied_byte + req.obj_size ∧
      (Clock2QPlus_insert s req).cache_size = s.cache_size := by
  obtain ⟨hf, hm⟩ := both_eq_none.1 hmiss
  have hmade : ∀ t : State, t.fifo.Plain → t.main_cache.Plain → t.fifo_ghost = s.fifo_ghost →
      (∀ x, t.fifo.size_of x = none ∨ t.main_cache.size_of x = none) →
      size_of t = update (size_of s) req.obj_id (some req.obj_size) → t.cache_size = s.cache_size →
      t.fifo.cache_size = s.fifo.cache_size → t.main_cache.cache_size = s.main_cache.cache_size → Inv t := by
    intro t hfifo hmain hghost hapart hnew hcs hfs hms
    refine ⟨hfifo, hmain, hghost ▸ h.ghost, hapart, fun x n hx => ?_, ?_, hms ▸ h.main_size⟩
    · rw [hnew] at hx
      rcases eq_or_ne x req.obj_id with rfl | hne
      · rw [update_self] at hx
        cases hx
        exact hsize
      · rw [update_of_ne hne] at hx
        exact h.sized x n hx
    · rw [hfs, hcs]
      exact h.fifo_size
  have hin_main : ∀ t : State, t.fifo = s.fifo → t.main_cache = s.main_cache.FIFO_insert req default → t.fifo_ghost = s.fifo_ghost →
      t.cache_size = s.cache_size → Inv t ∧ size_of t = update (size_of s) req.obj_id (some req.obj_size) ∧
      t.Clock2QPlus_get_occupied_byte = s.Clock2QPlus_get_occupied_byte + req.obj_size ∧ t.cache_size = s.cache_size := by
    intro t hfifo hmain hghost hcs
    have hnew : size_of t = update (size_of s) req.obj_id (some req.obj_size) := by
      unfold size_of
      rw [hfifo, hmain, size_of_insert, both_update_right _ hf]
    refine ⟨hmade t ?_ ?_ hghost (fun x => ?_) hnew hcs ?_ ?_, hnew, ?_, hcs⟩
    · rw [hfifo]
      exact h.fifo
    · rw [hmain]
      exact h.main.insert default hm
    · rw [hfifo, hmain, size_of_insert]
      rcases eq_or_ne x req.obj_id with rfl | hne
      · exact .inl hf
      · rw [update_of_ne hne]
        exact h.apart x
    · rw [hfifo]
    · rw [hmain]
      rfl
    · unfold State.Clock2QPlus_get_occupied_byte
      rw [hfifo, hmain, h.main.occupied_insert]
      omega
  unfold Clock2QPlus_insert
  split_ifs with hghost hlarge
  · exact hin_main _ rfl rfl rfl rfl
  · exact absurd (htake.resolve_left hghost) (by omega)
  · exact hin_main _ rfl rfl rfl rfl
  · have hnew : size_of { s with
        n_obj_admit_to_fifo := s.n_obj_admit_to_fifo + 1
        fifo := s.fifo.FIFO_insert req ⟨s.n_obj_admit_to_fifo + 1, 0⟩ } =
        update (size_of s) req.obj_id (some req.obj_size) := by
      unfold size_of
      rw [size_of_insert, both_insert_left]
    refine ⟨hmade _ (h.fifo.insert _ hf) h.main rfl (fun x => ?_) hnew rfl rfl rfl, hnew, ?_, rfl⟩
    · rw [size_of_insert]
      rcases eq_or_ne x req.obj_id with rfl | hne
      · exact .inr hm
      · rw [update_of_ne hne]
        exact h.apart x
    · unfold State.Clock2QPlus_get_occupied_byte
      dsimp only
      rw [h.fifo.occupied_insert]
      omega

end

/-! ## Gets -/

def Takes (req : Request) (s : State) : Prop := s.hit_on_ghost = true ∨ req.obj_size < s.fifo.cache_size

structure Ready (req : Request) (s : State) : Prop where
  inv : Inv s
  missing : size_of s req.obj_id = none
  size : 1 ≤ req.obj_size
  fits : req.obj_size ≤ s.cache_size

theorem insert_refused (h : ¬ Takes req s) : Clock2QPlus_insert s req = s := by
  unfold Takes at h
  push Not at h
  unfold Clock2QPlus_insert
  rw [if_neg h.1, if_pos h.2]

theorem admission (req : Request) : Admission ops req size_of (Ready req) (Takes req) (fun s => ¬ Takes req s) effort where
  stock s h := h.inv.fifo.stock.both h.inv.main.stock h.inv.apart
  missing s h := h.missing
  evict s h hfull := by
    rw [CacheOps.full_for_iff] at hfull
    have hfits := h.fits
    have hocc : 0 < s.Clock2QPlus_get_occupied_byte := by
      simp only [ops] at hfull
      omega
    obtain ⟨s', hs', hev, hless⟩ := evict_spec h.inv hocc
    have hcs := congrArg Prod.fst hev.fixed
    have htakes : Takes req s' ↔ Takes req s := by
      have hflag := congrArg (·.2.2) hev.fixed
      have hfs := congrArg (·.2.1) hev.fixed
      dsimp only [fixed] at hflag hfs
      unfold Takes
      rw [hflag, hfs]
    exact ⟨s', hs', ⟨hev.inv, hev.within.eq_none h.missing, h.size, hfits.trans_eq hcs.symm⟩, hless, hev.within.under, htakes,
      not_congr htakes, hcs, rfl⟩
  inserts s h htake _ := by
    refine ⟨_, rfl, ?_⟩
    rw [(insert_spec h.inv h.missing h.size htake).2.1, update_self]
    rfl
  turns_away s _ hrefuse := ⟨s, congrArg some (insert_refused hrefuse), rfl⟩
  fails s _ htake hrefuse := absurd htake hrefuse

structure Fits (s : State) : Prop where
  inv : Inv s
  fits : s.Clock2QPlus_get_occupied_byte ≤ s.cache_size

theorem init_fits {cache_size fifo_cache_size : Int} (hfifo : 0 ≤ fifo_cache_size) (hmain : fifo_cache_size ≤ cache_size)
    (fifo_ghost_cache_size move_to_main_threshold : Int) (corr_window_size : ℚ) :
    Fits (Clock2QPlus_init cache_size fifo_cache_size fifo_ghost_cache_size move_to_main_threshold corr_window_size) := by
  refine ⟨⟨.init _, .init _, ?_, fun _ => .inl rfl, nofun, hmain, Int.sub_nonneg_of_le hmain⟩, hfifo.trans hmain⟩
  intro g hg
  simp only [Clock2QPlus_init, Option.mem_def, Option.ite_none_right_eq_some, Option.some.injEq] at hg
  rw [← hg.2]
  exact Fifo.init_inv _ _

theorem found_spec (h : Fits s) (hsize : 1 ≤ req.obj_size) :
    ∃ s1, ops.find (ops.count_req s) req = some (s1, (size_of s req.obj_id).isSome) ∧ Fits s1 ∧ size_of s1 = size_of s ∧
      s1.fifo.cache_size = s.fifo.cache_size ∧ s1.cache_size = s.cache_size ∧
      s1.Clock2QPlus_get_occupied_byte = s.Clock2QPlus_get_occupied_byte ∧
      (size_of s req.obj_id = none → s1.hit_on_ghost = s.remembers req.obj_id ∧
        (Clock2QPlus_can_insert s1 req = true → Ready req s1)) := by
  obtain ⟨s1, hfind, hkeeps, hghost⟩ := find_spec h.inv.count_req req
  refine ⟨s1, congrArg some hfind, ⟨hkeeps.inv, ?_⟩, hkeeps.size_of, hkeeps.fifo_size, hkeeps.cache_size, hkeeps.occupied, ?_⟩
  · rw [hkeeps.occupied, hkeeps.cache_size]
    exact h.fits
  · intro hmiss
    refine ⟨hghost hmiss, fun hcan => ⟨hkeeps.inv, by rw [hkeeps.size_of]; exact hmiss, hsize, ?_⟩⟩
    exact (of_decide_eq_true hcan).trans hkeeps.inv.fifo_size

theorem get_fits {hit : Bool} (h : Fits s) (hsize : 1 ≤ req.obj_size) (hget : Clock2QPlus_get s req = some (s', hit)) : Fits s' := by
  obtain ⟨s1, hfind, hfits, -, -, -, -, hready⟩ := found_spec h hsize
  refine (admission req).get_keeps hfind hfits rfl (fun hmiss => (hready (by simpa using hmiss)).2) le_rfl ?_ hget
  intro t u ht hroom hu
  cases hu
  by_cases htake : Takes req t
  · obtain ⟨hinv, -, hocc, hcs⟩ := insert_spec ht.inv ht.missing ht.size htake
    refine ⟨hinv, ?_⟩
    rw [CacheOps.full_for_false_iff] at hroom
    simp only [ops] at hroom
    omega
  · rw [insert_refused htake]
    refine ⟨ht.inv, ?_⟩
    rw [CacheOps.full_for_false_iff] at hroom
    simp only [ops] at hroom
    omega

def Whole (s : State) (req : Request) : Prop :=
  Clock2QPlus_can_insert s req = false ∨ s.remembers req.obj_id = true ∨ req.obj_size < s.fifo.cache_size ∨
    s.Clock2QPlus_get_occupied_byte + req.obj_size ≤ s.cache_size

theorem all_or_nothing_iff (h : Fits s) (hsize : 1 ≤ req.obj_size) (hmiss : resident s req.obj_id = false) :
    AllOrNothing resident Clock2QPlus_get s req ↔ Whole s req := by
  obtain ⟨s1, hfind, -, hsame, hfs, hcs, hocc, hready⟩ := found_spec h hsize
  have hnone : size_of s req.obj_id = none := by
    rw [resident_eq] at hmiss
    simpa using hmiss
  obtain ⟨hghost, hready⟩ := hready hnone
  rw [hnone] at hfind
  have hcan : Clock2QPlus_can_insert s1 req = Clock2QPlus_can_insert s req := by
    unfold Clock2QPlus_can_insert
    rw [hfs]
  have hroom : ops.full_for req s1 = false ↔ s.Clock2QPlus_get_occupied_byte + req.obj_size ≤ s.cache_size := by
    rw [CacheOps.full_for_false_iff]
    simp only [ops]
    rw [hocc, hcs, Int.add_zero]
  have hiff : AllOrNothing resident Clock2QPlus_get s req ↔
      Clock2QPlus_can_insert s1 req = false ∨ Takes req s1 ∨ ops.full_for req s1 = false := by
    refine (admission req).all_or_nothing_iff_takes resident_eq hfind (fun x => ?_) rfl hready le_rfl
    rw [resident_eq, resident_eq, hsame]
  rw [hiff, hcan, hroom]
  unfold Whole Takes
  rw [hghost, hfs, or_assoc]

end CacheSim.Clock2QPlus
