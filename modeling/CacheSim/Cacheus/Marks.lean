import CacheSim.Cacheus.Proofs

/-!
# The counters of SR-LRU

An object that is demoted is marked and counted, but a hit in SR brings it to R as a fresh copy, whose mark
nobody finds.
-/

namespace CacheSim.Cacheus

open Lib List Option Nat Table

variable {W : Type} {E : Weights W} {c : Int} {s s' t : State W} {req : Request}

def Counted (l : SrLru) : Prop :=
  l.C_demoted = l.R_list.count (·.demoted) + l.SR_list.count (·.demoted) ∧ l.C_new = l.H_list.count (·.new_obj)

/-- A hit in SR on an object that was demoted makes SR smaller, unless that has size 1. -/
def Enlarges (l l' : SrLru) (req : Request) : Prop :=
  (l.SR_list.q.lookup req.obj_id).any (·.md.demoted) = true →
    l'.SR_list.cache_size < l.SR_list.cache_size ∨ l.SR_list.cache_size = 1 ∧ l'.SR_list.cache_size = 1

instance {l : SrLru} : Decidable (Counted l) := inferInstanceAs (Decidable (_ ∧ _))

instance {l l' : SrLru} : Decidable (Enlarges l l' req) := inferInstanceAs (Decidable (_ → _ ∨ _ ∧ _))

theorem Lists.counted_iff {l : SrLru} (h : Lists c l) : Counted l ↔ l.demoted_drift = 0 ∧ l.new_drift = 0 := by
  have hR : l.R_list.count (·.demoted) = 0 := Lru.count_eq_zero fun x o ho => (h.R_md x o ho).1
  unfold Counted SrLru.demoted_drift SrLru.new_drift
  omega

/-! ## What the history gives up -/

def get_victim (E : Weights W) (s : State W) (req : Request) : Option ObjId :=
  if SR_LRU_get_occupied_byte s.twin.lru = s.cache_size then victim E (missed E s req) else none

/-- How many objects leave for the history in a get of a missing object: the victim, and one more if the object comes into a SR
that is full. -/
def departures (E : Weights W) (s : State W) (req : Request) : Nat :=
  let out := get_victim E s req
  let evicted := if out.isSome then 1 else 0
  let remembered := (s.twin.lru.H_list.q.entries.take ((s.cache_size - 1).toNat - evicted)).any fun e => e.1 = req.obj_id
  let SR_occupied := s.twin.lru.SR_list.occupied_byte - if out.any (· ∈ s.twin.lru.SR_list.q) then 1 else 0
  evicted + if ¬ remembered ∧ s.twin.lru.SR_list.cache_size ≤ SR_occupied then 1 else 0

/-- A hit does not find a demoted object. A miss does not find an entry that is marked new, and the history has room for what
leaves, or no such entry is among the oldest, for which it has not. -/
def keeps_marks (E : Weights W) (s : State W) (req : Request) : Prop :=
  if s.twin.lru.holds req.obj_id then (s.twin.lru.SR_list.q.lookup req.obj_id).any (·.md.demoted) = false
  else s.twin.lru.recalls req.obj_id = false ∧
    ∀ e ∈ s.twin.lru.H_list.q.entries.drop ((s.cache_size - 1).toNat - departures E s req), e.2.md.new_obj = false

instance : Decidable (keeps_marks E s req) := by
  unfold keeps_marks
  infer_instance

def beyond (n : Nat) (h : Lru Md) : Int := marked ((notes h).drop n)

variable {n : Nat}

theorem beyond_eq_zero {h : Lru Md} : beyond n h = 0 ↔ ∀ e ∈ h.q.entries.drop n, e.2.md.new_obj = false := by
  unfold beyond marked notes
  rw [← map_drop, Int.natCast_eq_zero, countP_eq_zero, List.forall_mem_map]
  simp only [Bool.not_eq_true]

theorem beyond_nonneg {h : Lru Md} : 0 ≤ beyond n h := marked_nonneg _

theorem marked_take_add_drop (l : List (ObjId × Bool)) (n : Nat) : marked (l.take n) + marked (l.drop n) = marked l := by
  rw [← marked_append, take_append_drop]

theorem Inv.notes_length (h : Inv c s) : (notes s.twin.lru.H_list).length ≤ (c - 1).toNat := by
  have hroom := h.H_room
  have hocc := h.pair.lists.H.occupied
  unfold notes
  rw [length_map]
  omega

theorem Inv.beyond_eq_zero (h : Inv c s) : beyond (c - 1).toNat s.twin.lru.H_list = 0 := by
  unfold beyond
  rw [drop_eq_nil_of_le h.notes_length]
  rfl

variable {u u' : Twin}

theorem Evicts.new_drift {id : ObjId} (h : Evicts c id u u') (hc : 2 ≤ c) :
    u'.lru.new_drift = u.lru.new_drift + beyond ((c - 1).toNat - 1) u.lru.H_list := by
  obtain ⟨new, hnotes, hC_new, -⟩ := h.noted
  obtain ⟨n, hn⟩ := exists_eq_succ_of_ne_zero (by omega : (c - 1).toNat ≠ 0)
  have hsplit := marked_take_add_drop (notes u.lru.H_list) n
  rw [new_drift_eq, new_drift_eq, hnotes, hC_new, hn, take_succ_cons, marked_cons]
  unfold beyond
  rw [succ_sub_one]
  dsimp only
  omega

def spills (l : SrLru) (req : Request) : Nat :=
  if req.obj_id ∉ l.H_list.q ∧ l.SR_list.occupied_byte = l.SR_list.cache_size then 1 else 0

theorem Inserts.new_drift (h : Inserts c req u u') (hu : Lists c u.lru) (hc : 2 ≤ c)
    (hlen : (notes u.lru.H_list).length ≤ (c - 1).toNat) (hnew : u.lru.recalls req.obj_id = false)
    (hfits : u.lru.SR_list.occupied_byte ≤ u.lru.SR_list.cache_size) :
    u'.lru.new_drift = u.lru.new_drift + beyond ((c - 1).toNat - spills u.lru req) u.lru.H_list := by
  obtain ⟨sent, hnotes, hC_new, hlength⟩ := h.sent
  have hlength : sent.length = spills u.lru req := hlength hnew hfits
  set n := (c - 1).toNat
  set kept := notes (u.lru.H_list.LRU_remove req.obj_id).1
  have hsplit := marked_take_add_drop (sent ++ kept) n
  rw [marked_append] at hsplit
  have hdrop : (sent ++ kept).drop n = kept.drop (n - spills u.lru req) := by
    have hle : sent.length ≤ n := by
      rw [hlength]
      unfold spills
      split_ifs <;> omega
    rw [drop_append, drop_eq_nil_of_le hle, nil_append, hlength]
  -- an entry that is not marked may have been taken, and then none is pushed
  have hkept : marked kept = marked (notes u.lru.H_list) ∧
      marked (kept.drop (n - spills u.lru req)) = beyond (n - spills u.lru req) u.lru.H_list := by
    rcases hlook : u.lru.H_list.q.lookup req.obj_id with _ | o
    · have hsame : (u.lru.H_list.LRU_remove req.obj_id).1 = u.lru.H_list := by
        unfold Lru.LRU_remove Fifo.FIFO_remove
        rw [hlook]
      dsimp only [kept]
      rw [hsame]
      exact ⟨rfl, rfl⟩
    · have hold : o.md.new_obj = false := by
        unfold SrLru.recalls at hnew
        rwa [hlook] at hnew
      have hcount := Lru.count_remove (p := (·.new_obj)) hlook
      have hones := hu.H.remove req.obj_id
      have hocc := hu.H.occupied_remove (mem_of_lookup hlook)
      rw [count_eq_marked, count_eq_marked, hold] at hcount
      have hnone : spills u.lru req = 0 := if_neg fun hboth => hboth.1 (mem_of_lookup hlook)
      have hshort : kept.length ≤ n := by
        have hlen' := hones.occupied
        have hlen'' := hu.H.occupied
        dsimp only [kept]
        unfold notes at hlen ⊢
        rw [length_map] at hlen ⊢
        omega
      rw [hnone, Nat.sub_zero, drop_eq_nil_of_le hshort]
      unfold beyond
      rw [drop_eq_nil_of_le hlen]
      exact ⟨hcount.trans (Int.sub_zero _), rfl⟩
  rw [hdrop] at hsplit
  rw [new_drift_eq, new_drift_eq, hnotes, hC_new]
  omega

theorem Room.cases (h : Room E c (missed E s req) s') (hs : Inv c s) :
    (∃ id, get_victim E s req = some id ∧ SR_LRU_get_occupied_byte s.twin.lru = c ∧ Loses c id (missed E s req) s') ∨
      get_victim E s req = none ∧ s'.twin = s.twin := by
  have hcs := hs.cache_size
  have hsame : SR_LRU_get_occupied_byte (missed E s req).twin.lru = SR_LRU_get_occupied_byte s.twin.lru := rfl
  unfold Room at h
  unfold get_victim
  rw [hcs]
  rw [hsame] at h
  split_ifs at h ⊢ with hfull
  · obtain ⟨id, hvictim, hl⟩ := h
    exact .inl ⟨id, hvictim, hfull, hl⟩
  · exact .inr ⟨rfl, h ▸ rfl⟩

variable {x : ObjId}

theorem mem_iff_notes {h : Lru Md} : x ∈ h.q ↔ x ∈ (notes h).map (·.1) := by
  unfold notes
  rw [List.map_map]
  constructor
  · intro hx
    obtain ⟨o, ho⟩ := exists_lookup hx
    exact mem_map.2 ⟨⟨x, o⟩, mem_entries_of_lookup ho, rfl⟩
  · intro hx
    obtain ⟨e, he, rfl⟩ := mem_map.1 hx
    exact mem_of_lookup (lookup_of_mem_entries he)

theorem any_take_iff {h : Lru Md} :
    (h.q.entries.take n).any (fun e => e.1 = x) = true ↔ x ∈ ((notes h).take n).map (·.1) := by
  unfold notes
  rw [List.any_eq_true, ← map_take, List.map_map, List.mem_map]
  exact exists_congr fun e => and_congr_right fun _ => decide_eq_true_iff

theorem Room.departures_eq (h : Room E c (missed E s req) s') (hs : Inv c s) (hc : 2 ≤ c) (hmiss : ¬ s.twin.lru.holds req.obj_id)
    (hfits : s.twin.lru.SR_list.occupied_byte ≤ s.twin.lru.SR_list.cache_size) :
    departures E s req = (if (get_victim E s req).isSome then 1 else 0) + spills s'.twin.lru req := by
  unfold departures spills
  dsimp only
  congr 1
  rw [hs.cache_size]
  rcases h.cases hs with ⟨id, hvictim, -, hl⟩ | ⟨hvictim, htwin⟩
  · obtain ⟨new, hnotes, -, -⟩ := hl.evicts.noted
    obtain ⟨n, hn⟩ := exists_eq_succ_of_ne_zero (by omega : (c - 1).toNat ≠ 0)
    have hne : req.obj_id ≠ id := fun heq => hmiss (heq ▸ hl.held)
    have hmem : (s.twin.lru.H_list.q.entries.take n).any (fun e => e.1 = req.obj_id) = true ↔ req.obj_id ∈ s'.twin.lru.H_list.q := by
      rw [any_take_iff, mem_iff_notes, hnotes, hn, take_succ_cons, map_cons, mem_cons]
      exact (or_iff_right hne).symm
    have hocc : s'.twin.lru.SR_list.occupied_byte =
        s.twin.lru.SR_list.occupied_byte - if id ∈ s.twin.lru.SR_list.q then 1 else 0 := hl.evicts.SR_occupied
    have hsize : s'.twin.lru.SR_list.cache_size = s.twin.lru.SR_list.cache_size := hl.evicts.SR_size
    rw [hvictim, hn]
    refine if_congr (and_congr (not_congr hmem) ?_) rfl rfl
    simp only [any_some, decide_eq_true_eq]
    rw [← hocc, hsize]
    split_ifs at hocc <;> omega
  · rw [hvictim, htwin]
    refine if_congr (and_congr (not_congr ?_) ?_) rfl rfl
    · show (s.twin.lru.H_list.q.entries.take (c - 1).toNat).any (fun e => e.1 = req.obj_id) = true ↔ _
      rw [any_take_iff, mem_iff_notes, take_of_length_le hs.notes_length]
    · show s.twin.lru.SR_list.cache_size ≤ s.twin.lru.SR_list.occupied_byte - 0 ↔ _
      omega

theorem marked_twice (l : List (ObjId × Bool)) (id : ObjId) (m : Nat) :
    marked (l.drop m) + marked (((id, false) :: l.take m).drop m) = marked (l.drop (m - 1)) := by
  cases m with
  | zero => exact Int.add_zero _
  | succ m =>
    have hsplit := marked_take_add_drop (l.drop m) 1
    rw [drop_drop] at hsplit
    rw [drop_succ_cons, drop_take, Nat.add_sub_cancel, Nat.add_sub_cancel_left, Int.add_comm]
    exact hsplit

theorem Room.new_drift (h : Room E c (missed E s req) s') (hs : Inv c s) (hc : 2 ≤ c) (hmiss : ¬ s.twin.lru.holds req.obj_id)
    (hfits : s.twin.lru.SR_list.occupied_byte ≤ s.twin.lru.SR_list.cache_size) (hnew : s.twin.lru.recalls req.obj_id = false)
    (hi : Inserts c req s'.twin t.twin) :
    t.twin.lru.new_drift = s.twin.lru.new_drift + beyond ((c - 1).toNat - departures E s req) s.twin.lru.H_list := by
  obtain ⟨hs', -, -, -, -, -, hrecalls⟩ := h.spec (hs.missed E req).1
  have hnew' : s'.twin.lru.recalls req.obj_id = false :=
    Bool.eq_false_iff.2 fun hrec => absurd ((hrecalls _ hmiss hrec).symm.trans hnew) (by decide)
  rw [h.departures_eq hs hc hmiss hfits]
  rcases h.cases hs with ⟨id, hvictim, -, hl⟩ | ⟨hvictim, htwin⟩
  · have hocc : s'.twin.lru.SR_list.occupied_byte =
        s.twin.lru.SR_list.occupied_byte - if id ∈ s.twin.lru.SR_list.q then 1 else 0 := hl.evicts.SR_occupied
    have hsize : s'.twin.lru.SR_list.cache_size = s.twin.lru.SR_list.cache_size := hl.evicts.SR_size
    have hevicted : s'.twin.lru.new_drift = s.twin.lru.new_drift + beyond ((c - 1).toNat - 1) s.twin.lru.H_list :=
      hl.evicts.new_drift hc
    have hinserted := hi.new_drift hs'.pair.lists hc hs'.notes_length hnew' (by split_ifs at hocc <;> omega)
    rw [hvictim, hinserted, hevicted, Int.add_assoc]
    congr 1
    by_cases hboth : req.obj_id ∉ s'.twin.lru.H_list.q ∧ s'.twin.lru.SR_list.occupied_byte = s'.twin.lru.SR_list.cache_size
    · -- SR is still full, so the victim comes from R, and its entry is not marked
      have hone : spills s'.twin.lru req = 1 := if_pos hboth
      have hR : id ∈ s.twin.lru.R_list.q := by
        refine hl.held.resolve_right fun hSR => ?_
        have hSR' : id ∈ s.twin.lru.SR_list.q := hSR
        rw [if_pos hSR'] at hocc
        omega
      obtain ⟨new, hnotes, -, hold⟩ := hl.evicts.noted
      obtain ⟨m, hm⟩ := exists_eq_succ_of_ne_zero (by omega : (c - 1).toNat ≠ 0)
      have hnotes' : notes s'.twin.lru.H_list = (id, false) :: (notes s.twin.lru.H_list).take m := by
        rw [hnotes, hold hR, hm]
        rfl
      rw [hone, hm]
      unfold beyond
      rw [hnotes', succ_sub_one]
      exact marked_twice _ id m
    · have hnone : spills s'.twin.lru req = 0 := if_neg hboth
      rw [hnone, Nat.sub_zero, hs'.beyond_eq_zero]
      exact Int.add_zero _
  · have hinserted := hi.new_drift hs'.pair.lists hc hs'.notes_length hnew' (htwin ▸ hfits)
    rw [hvictim, hinserted, htwin]
    show _ = _ + beyond ((c - 1).toNat - (0 + spills s.twin.lru req)) _
    rw [zero_add]

theorem Inserts.le_new_drift (h : Inserts c req u u') :
    u.lru.new_drift + (if u.lru.recalls req.obj_id then 1 else 0) ≤ u'.lru.new_drift := by
  obtain ⟨sent, hnotes, hC_new, -⟩ := h.sent
  set kept := notes (u.lru.H_list.LRU_remove req.obj_id).1
  have hsplit := marked_take_add_drop (sent ++ kept) (c - 1).toNat
  have hgone := marked_nonneg ((sent ++ kept).drop (c - 1).toNat)
  have hkept : marked kept = marked (notes u.lru.H_list) - if u.lru.recalls req.obj_id then 1 else 0 := by
    dsimp only [kept]
    unfold SrLru.recalls
    rcases hlook : u.lru.H_list.q.lookup req.obj_id with _ | o
    · have hsame : (u.lru.H_list.LRU_remove req.obj_id).1 = u.lru.H_list := by
        unfold Lru.LRU_remove Fifo.FIFO_remove
        rw [hlook]
      rw [hsame]
      exact (Int.sub_zero _).symm
    · rw [← count_eq_marked, ← count_eq_marked]
      exact Lru.count_remove hlook
  rw [marked_append] at hsplit
  rw [new_drift_eq, new_drift_eq, hnotes, hC_new]
  omega

theorem Room.drifts (h : Room E c (missed E s req) s') (hs : Inv c s) (hc : 2 ≤ c)
    (hnew : s.twin.lru.recalls req.obj_id = true) (hi : Inserts c req s'.twin t.twin) :
    s.twin.lru.new_drift < t.twin.lru.new_drift := by
  have hle := hi.le_new_drift
  rcases h.cases hs with ⟨id, -, -, hl⟩ | ⟨-, htwin⟩
  · obtain ⟨new, hnotes, -, -⟩ := hl.evicts.noted
    have hevicted : s'.twin.lru.new_drift = s.twin.lru.new_drift + beyond ((c - 1).toNat - 1) s.twin.lru.H_list :=
      hl.evicts.new_drift hc
    have hpushed := beyond_nonneg (n := (c - 1).toNat - 1) (h := s.twin.lru.H_list)
    by_cases hrecalls : s'.twin.lru.recalls req.obj_id = true
    · rw [if_pos hrecalls] at hle
      omega
    · -- the entry was the last one
      obtain ⟨m, hm⟩ := exists_eq_succ_of_ne_zero (by omega : (c - 1).toNat ≠ 0)
      have hlast : (req.obj_id, true) ∈ (notes s.twin.lru.H_list).drop m := by
        have hmem := recalls_iff.1 hnew
        rw [← take_append_drop m (notes s.twin.lru.H_list), mem_append] at hmem
        refine hmem.resolve_left fun htake => hrecalls (recalls_iff.2 ?_)
        rw [hnotes, hm, take_succ_cons]
        exact mem_cons_of_mem _ htake
      have hpos : 0 < beyond ((c - 1).toNat - 1) s.twin.lru.H_list := by
        rw [hm, succ_sub_one]
        exact Int.natCast_pos.2 (countP_pos_iff.2 ⟨_, hlast, rfl⟩)
      omega
  · rw [htwin, if_pos hnew] at hle
    omega

/-! ## Gets -/

structure Steady (c : Int) (s : State W) : Prop where
  inv : Inv c s
  counted : Counted s.twin.lru
  SR_size : s.twin.lru.SR_list.cache_size = c / 2
  SR_fits : s.twin.lru.SR_list.occupied_byte ≤ s.twin.lru.SR_list.cache_size
  /-- nothing comes into a cache of one byte -/
  room : SR_LRU_get_occupied_byte s.twin.lru = c → 2 ≤ c

theorem init_steady (hc : 1 ≤ c) : Steady c (Cacheus_init E c false) where
  inv := init_inv hc
  counted := ⟨rfl, rfl⟩
  SR_size := rfl
  SR_fits := by
    show 0 ≤ c / 2
    omega
  room h := by
    have hzero : 0 = c := h
    omega

theorem Steady.drifts (h : Steady c s) : s.twin.lru.demoted_drift = 0 ∧ s.twin.lru.new_drift = 0 :=
  h.inv.pair.lists.counted_iff.1 h.counted

def Judged (E : Weights W) (c : Int) (s : State W) (req : Request) (t : State W) : Prop :=
  (Counted t.twin.lru ∧ Enlarges s.twin.lru t.twin.lru req ↔ keeps_marks E s req) ∧ (keeps_marks E s req → Steady c t)

theorem Steady.hit (h : Steady c s) (hc : 1 ≤ c) (hheld : s.twin.lru.holds req.obj_id) :
    ∃ t, Cacheus_get E s req = some (t, true) ∧ Judged E c s req t := by
  obtain ⟨t, hget, ht, hf⟩ := Cacheus_get_hit h.inv hc hheld
  obtain ⟨hdemoted, hnew⟩ := h.drifts
  have hkeeps : keeps_marks E s req ↔ (s.twin.lru.SR_list.q.lookup req.obj_id).any (·.md.demoted) = false := by
    unfold keeps_marks
    rw [if_pos hheld]
  have hnew' : t.twin.lru.new_drift = 0 := by
    unfold SrLru.new_drift at hnew ⊢
    rw [hf.H_list, hf.C_new]
    exact hnew
  have hdrift := hf.drift
  have hiff : Counted t.twin.lru ↔ keeps_marks E s req := by
    rw [ht.pair.lists.counted_iff, hkeeps, hdrift, hdemoted]
    split_ifs with hmark <;> simp [hmark, hnew']
  have hround : keeps_marks E s req → Enlarges s.twin.lru t.twin.lru req := by
    intro hk hmark
    exact absurd (hmark.symm.trans (hkeeps.1 hk)) (by decide)
  refine ⟨t, hget, ⟨fun hboth => hiff.1 hboth.1, fun hk => ⟨hiff.2 hk, hround hk⟩⟩, fun hk => ⟨ht, hiff.2 hk, ?_, ?_, ?_⟩⟩
  · exact hf.SR_size.trans h.SR_size
  · exact hf.SR_fits h.inv.fits h.SR_fits
  · exact fun hfull => h.room (hf.occupied ▸ hfull)

theorem Steady.miss_of_one (h : Steady 1 s) (hsize : req.obj_size = 1) (hmiss : ¬ s.twin.lru.holds req.obj_id) :
    ∃ t, Cacheus_get E s req = some (t, false) ∧ Judged E 1 s req t := by
  have hlen := h.inv.notes_length
  have hempty : s.twin.lru.H_list.q.entries = [] := by
    refine eq_nil_of_length_eq_zero ?_
    unfold notes at hlen
    rw [length_map] at hlen
    exact le_zero.1 hlen
  have hout : ∀ x, x ∉ s.twin.lru.H_list.q := by
    intro x hx
    obtain ⟨o, ho⟩ := exists_lookup hx
    have hmem := mem_entries_of_lookup ho
    rw [hempty] at hmem
    cases hmem
  have hrecalls : s.twin.lru.recalls req.obj_id = false := by
    unfold SrLru.recalls
    rw [AList.lookup_eq_none.2 (hout _)]
    rfl
  obtain ⟨s', t, hget, ht, hroom, hadmits⟩ := Cacheus_get_miss h.inv le_rfl hsize hmiss h.room
    fun hnew => absurd (hrecalls.symm.trans hnew) (by decide)
  have hnotfull : SR_LRU_get_occupied_byte s.twin.lru ≠ 1 := fun hfull => absurd (h.room hfull) (by decide)
  have htwin : t.twin = s.twin := by
    rcases hroom.cases h.inv with ⟨-, -, hfull, -⟩ | ⟨-, hsame⟩
    · exact absurd hfull hnotfull
    · unfold Admits at hadmits
      rw [hsame, if_neg] at hadmits
      · exact hadmits
      · rw [SR_LRU_can_insert_iff h.inv.pair.lists hsize, if_neg (hout _), h.SR_size]
        decide
  have hkeeps : keeps_marks E s req := by
    unfold keeps_marks
    rw [if_neg hmiss, hempty, drop_nil]
    exact ⟨hrecalls, fun e he => nomatch he⟩
  have hcounted : Counted t.twin.lru := htwin ▸ h.counted
  refine ⟨t, hget, iff_of_true ⟨hcounted, fun hmark => ?_⟩ hkeeps, fun _ => ⟨ht, hcounted, ?_, ?_, ?_⟩⟩
  · obtain ⟨o, ho, -⟩ := (any_eq_true _ _).1 hmark
    exact absurd (.inr (mem_of_lookup ho)) hmiss
  · rw [htwin]
    exact h.SR_size
  · rw [htwin]
    exact h.SR_fits
  · rw [htwin]
    exact h.room

theorem Steady.miss (h : Steady c s) (hc : 2 ≤ c) (hsize : req.obj_size = 1) (hmiss : ¬ s.twin.lru.holds req.obj_id)
    (hround : s.twin.lru.recalls req.obj_id = true → NotRoundedUp c) :
    ∃ t, Cacheus_get E s req = some (t, false) ∧ Judged E c s req t := by
  obtain ⟨s', t, hget, ht, hroom, hadmits⟩ := Cacheus_get_miss h.inv (by omega) hsize hmiss h.room
    fun hnew => (hround hnew).exact
  obtain ⟨hs', -, -, hsame, hdrift, -, hrecalls⟩ := hroom.spec (h.inv.missed E req).1
  have hsame' : s'.twin.lru.SR_list.cache_size = s.twin.lru.SR_list.cache_size := hsame
  have hR := hs'.pair.lists.R_size
  have hSR := h.SR_size
  have hi := hadmits.inserts hs'.pair.lists hsize (by omega) (by omega)
  obtain ⟨hdemoted, hnew⟩ := h.drifts
  have hdemoted' : t.twin.lru.demoted_drift = 0 := hi.drift.trans (hdrift.trans hdemoted)
  have henlarges : Enlarges s.twin.lru t.twin.lru req := by
    intro hmark
    obtain ⟨o, ho, -⟩ := (any_eq_true _ _).1 hmark
    exact absurd (.inr (mem_of_lookup ho)) hmiss
  have hiff : Counted t.twin.lru ↔ keeps_marks E s req := by
    rw [ht.pair.lists.counted_iff]
    unfold keeps_marks
    rw [if_neg hmiss, h.inv.cache_size, ← beyond_eq_zero]
    rcases hold : s.twin.lru.recalls req.obj_id with _ | _
    · rw [hroom.new_drift h.inv hc hmiss h.SR_fits hold hi, hnew, Int.zero_add]
      simp [hdemoted']
    · have hlt := hroom.drifts h.inv hc hold hi
      refine iff_of_false (fun hboth => ?_) fun hboth => absurd hboth.1 (by decide)
      omega
  refine ⟨t, hget, ⟨fun hboth => hiff.1 hboth.1, fun hk => ⟨hiff.2 hk, henlarges⟩⟩, fun hk => ⟨ht, hiff.2 hk, ?_, hi.SR_fits,
    fun _ => hc⟩⟩
  have hold : s.twin.lru.recalls req.obj_id = false := by
    unfold keeps_marks at hk
    rw [if_neg hmiss] at hk
    exact hk.1
  rw [hi.kept (Bool.eq_false_iff.2 fun hrec => absurd ((hrecalls _ hmiss hrec).symm.trans hold) (by decide)), hsame']
  exact hSR

theorem Steady.get (h : Steady c s) (hc : 1 ≤ c) (hsize : req.obj_size = 1)
    (hround : s.twin.lru.recalls req.obj_id = true → NotRoundedUp c) :
    ∃ t hit, Cacheus_get E s req = some (t, hit) ∧ Judged E c s req t := by
  by_cases hheld : s.twin.lru.holds req.obj_id
  · obtain ⟨t, hget, ht⟩ := h.hit hc hheld
    exact ⟨t, true, hget, ht⟩
  · rcases hc.eq_or_lt with rfl | hc
    · obtain ⟨t, hget, ht⟩ := h.miss_of_one hsize hheld
      exact ⟨t, false, hget, ht⟩
    · obtain ⟨t, hget, ht⟩ := h.miss hc hsize hheld hround
      exact ⟨t, false, hget, ht⟩

/-! ## Runs -/

def get (E : Weights W) (s : State W) (req : Request) : Option (State W) := (Cacheus_get E s req).map (·.1)

theorem get_of_zero (hsize : req.obj_size = 1) : get E (Cacheus_init E 0 false) req = none := by
  have hout : ¬ (Cacheus_init E 0 false).twin.lru.holds req.obj_id := by
    rintro (hx | hx)
    · cases hx
    · cases hx
  have hfind : Cacheus_find E { Cacheus_init E 0 false with n_req := 0 + 1 } req true =
      some (missed E (Cacheus_init E 0 false) req, false) := by
    rfl
  have hcan : (ops E).can_insert (missed E (Cacheus_init E 0 false) req) req =
    some (missed E (Cacheus_init E 0 false) req, false) := by
    show some (missed E (Cacheus_init E 0 false) req, !decide (req.obj_size + 0 > 0)) = _
    rw [hsize]
    rfl
  unfold get Cacheus_get
  rw [CacheOps.cache_get_base_reject hfind hcan]
  rfl

/-- Objects of size 1 without metadata. -/
theorem Cacheus_counts_marks (cache_size : Nat)
    (h : Reach (get E) (fun s req => req.obj_size = 1 ∧ keeps_marks E s req) (Cacheus_init E cache_size false) s) :
    Counted s.twin.lru ∧ ∀ req : Request, req.obj_size = 1 → 0 < cache_size →
      (s.twin.lru.recalls req.obj_id = true → NotRoundedUp cache_size) →
      ∃ t hit, Cacheus_get E s req = some (t, hit) ∧
        (Counted t.twin.lru ∧ Enlarges s.twin.lru t.twin.lru req ↔ keeps_marks E s req) := by
  rcases Nat.eq_zero_or_pos cache_size with rfl | hpos
  · have hinit : s = Cacheus_init E 0 false := by
      refine h.inv (fun s => s = Cacheus_init E 0 false) ?_ rfl
      rintro s req t rfl ⟨hsize, -⟩ ht
      cases (get_of_zero hsize).symm.trans ht
    subst hinit
    exact ⟨⟨rfl, rfl⟩, fun _ _ hpos => absurd hpos (lt_irrefl 0)⟩
  · have hc : 1 ≤ (cache_size : Int) := by omega
    have hs : Steady cache_size s := by
      refine h.inv (Steady cache_size) ?_ (init_steady hc)
      rintro s req t hs ⟨hsize, hk⟩ ht
      have hround : s.twin.lru.recalls req.obj_id = true → NotRoundedUp cache_size := by
        intro hnew
        by_cases hheld : s.twin.lru.holds req.obj_id
        · obtain ⟨o, ho, -⟩ := (any_eq_true _ _).1 hnew
          exact absurd hheld (hs.inv.pair.lists.H_out _ (mem_of_lookup ho))
        · unfold keeps_marks at hk
          rw [if_neg hheld] at hk
          exact absurd (hk.1.symm.trans hnew) (by decide)
      obtain ⟨t', hit, hget, -, hsteady⟩ := hs.get hc hsize hround
      unfold get at ht
      rw [hget] at ht
      cases ht
      exact hsteady hk
    refine ⟨hs.counted, fun req hsize _ hround => ?_⟩
    obtain ⟨t, hit, hget, hiff, -⟩ := hs.get hc hsize hround
    exact ⟨t, hit, hget, hiff⟩

theorem Cacheus_counts_marks_of_four : ∃ s, Reach (get even_weights) (fun s req => req.obj_size = 1 ∧ keeps_marks even_weights s req)
      (Cacheus_init even_weights 4 false) s ∧
    Counted s.twin.lru ∧ ∀ req : Request, req.obj_size = 1 → 0 < 4 → (s.twin.lru.recalls req.obj_id = true → NotRoundedUp 4) →
      ∃ t hit, Cacheus_get even_weights s req = some (t, hit) ∧
        (Counted t.twin.lru ∧ Enlarges s.twin.lru t.twin.lru req ↔ keeps_marks even_weights s req) := by
  obtain ⟨s, hs⟩ : ∃ s, runs (fun s req => if req.obj_size = 1 ∧ keeps_marks even_weights s req then get even_weights s req else none)
      (Cacheus_init even_weights 4 false) [{ obj_id := 1 }, { obj_id := 2 }, { obj_id := 1 }, { obj_id := 2 }, { obj_id := 3 },
        { obj_id := 3 }, { obj_id := 4 }, { obj_id := 5 }, { obj_id := 6 }] = some s :=
    isSome_iff_exists.1 (by decide +kernel)
  have hreach := Reach.of_checked hs
  exact ⟨s, hreach, Cacheus_counts_marks 4 hreach⟩

/-- Object 1 returns from the history, is demoted, and then hit in SR. -/
theorem Cacheus_counts_too_much : ∃ s t, runs (get even_weights) (Cacheus_init even_weights 4 false)
      [{ obj_id := 1 }, { obj_id := 2 }, { obj_id := 3 }, { obj_id := 1 }, { obj_id := 2 }, { obj_id := 3 }] = some s ∧
    get even_weights s { obj_id := 1 } = some t ∧
    t.twin.lru.C_demoted = 2 ∧ t.twin.lru.R_list.count (·.demoted) + t.twin.lru.SR_list.count (·.demoted) = 1 ∧
    t.twin.lru.C_new = 1 ∧ t.twin.lru.H_list.count (·.new_obj) = 0 ∧ ¬ Enlarges s.twin.lru t.twin.lru { obj_id := 1 } := by
  simp only [exists_and_left]
  decide +kernel

end CacheSim.Cacheus
