import CacheSim.Lib.Partition
import CacheSim.Slru.Proofs
import Mathlib.Algebra.BigOperators.Fin

/-!
# The counters of the segments

Promotions, insertions and evictions move the counters with the lists.
-/

namespace CacheSim.Slru

open Lib Option AList Function Obj

variable (s : State)

def part : Part Nat ObjId Obj := ⟨fun id => s.hashtable.lookup id, s.segs⟩

def charge (obj : Obj) : Int := obj.obj_size + s.obj_md_size

structure Accounted (s : State) : Prop where
  listed : ∀ i id, id ∈ s.segs i ↔ ∃ obj, s.hashtable.lookup id = some obj ∧ obj.lru_id = i
  nodup : ∀ i, (s.segs i).Nodup
  lt_n_seg : ∀ id obj, s.hashtable.lookup id = some obj → obj.lru_id < s.n_seg
  n_bytes : ∀ i < s.n_seg, s.lru_n_bytes i = (part s).total (charge s) i
  n_objs : ∀ i < s.n_seg, s.lru_n_objs i = (s.segs i).length
  occupied : ∑ i ∈ Finset.range s.n_seg, s.lru_n_bytes i = s.occupied_byte

def Rises (req : Request) : Prop :=
  ∀ obj, s.hashtable.lookup req.obj_id = some obj → obj.lru_id + 1 < s.n_seg →
    s.lru_n_bytes (obj.lru_id + 1) + charge s obj ≤ s.lru_max_n_bytes (obj.lru_id + 1)

def Counts : Pin.Call → Prop
  | .get _ req => s.obj_md_size = 0 ∨ Rises s req
  | .evict _ => True
  | .remove id => id ∉ s.hashtable

instance (s : State) (req : Request) : Decidable (Rises s req) :=
  decidable_of_iff ((s.hashtable.lookup req.obj_id).all fun obj =>
    decide (obj.lru_id + 1 < s.n_seg → s.lru_n_bytes (obj.lru_id + 1) + charge s obj ≤ s.lru_max_n_bytes (obj.lru_id + 1)) : Prop)
    (by simp only [Rises, all_eq_true, decide_eq_true_eq])

instance (s : State) : (c : Pin.Call) → Decidable (Counts s c)
  | .get _ req => inferInstanceAs (Decidable (s.obj_md_size = 0 ∨ Rises s req))
  | .evict _ => isTrue trivial
  | .remove id => inferInstanceAs (Decidable (id ∉ s.hashtable))

variable {s t u : State} {id : ObjId} {obj : Obj} {pin : Pin}

theorem Inv.wf (h : Inv s) : (part s).WF Obj.lru_id := fun k => ⟨h.nodup k, h.segs k⟩

/-- From `s` to `t` the byte counter of segment `i` drifts by `m i` times the metadata of an object, and no other
counter does. -/
structure Drifts (s t : State) (m : Nat → Int) : Prop where
  inv : Inv t
  n_seg : t.n_seg = s.n_seg
  md : t.obj_md_size = s.obj_md_size
  max : t.lru_max_n_bytes = s.lru_max_n_bytes
  n_bytes : ∀ i, t.lru_n_bytes i - (part t).total (charge t) i = s.lru_n_bytes i - (part s).total (charge s) i + s.obj_md_size * m i
  n_objs : ∀ i, t.lru_n_objs i - (t.segs i).length = s.lru_n_objs i - (s.segs i).length
  occupied : ∑ i ∈ Finset.range t.n_seg, t.lru_n_bytes i - t.occupied_byte =
    ∑ i ∈ Finset.range s.n_seg, s.lru_n_bytes i - s.occupied_byte

theorem Drifts.refl (h : Inv s) : Drifts s s 0 := ⟨h, rfl, rfl, rfl, by simp, fun _ => rfl, rfl⟩

variable {m : Nat → Int} {i : Nat} {req : Request}

theorem Drifts.trans {m' : Nat → Int} (h : Drifts s t m) (h' : Drifts t u m') : Drifts s u (m + m') where
  inv := h'.inv
  n_seg := h'.n_seg.trans h.n_seg
  md := h'.md.trans h.md
  max := h'.max.trans h.max
  n_bytes i := by rw [h'.n_bytes, h.n_bytes, h.md, Pi.add_apply, Int.mul_add, Int.add_assoc]
  n_objs i := (h'.n_objs i).trans (h.n_objs i)
  occupied := h'.occupied.trans h.occupied

theorem Drifts.accounted_iff (hd : Drifts s t m) (h : Accounted s) :
    Accounted t ↔ ∀ i < s.n_seg, s.obj_md_size * m i = 0 := by
  have hn := hd.n_seg
  constructor
  · intro ht i hi
    have hs := h.n_bytes i hi
    have ht' := ht.n_bytes i (by omega)
    have hdrift := hd.n_bytes i
    omega
  · intro hm
    refine ⟨hd.inv.segs, hd.inv.nodup, hd.inv.lt_n_seg, fun i hi => ?_, fun i hi => ?_, ?_⟩
    · have hs := h.n_bytes i (by omega)
      have hdrift := hd.n_bytes i
      have hzero := hm i (by omega)
      omega
    · have hs := h.n_objs i (by omega)
      have hdrift := hd.n_objs i
      omega
    · have hs := h.occupied
      have hdrift := hd.occupied
      omega

/-! ## One record is written -/

theorem Drifts.of_sets {x : Option Obj} (h : Inv s) (hinv : Inv t) (hs : Part.Sets Obj.lru_id (part s) (part t) id x)
    (hn : t.n_seg = s.n_seg) (hmd : t.obj_md_size = s.obj_md_size) (hmax : t.lru_max_n_bytes = s.lru_max_n_bytes)
    (hbytes : ∀ i, t.lru_n_bytes i = s.lru_n_bytes i - Part.share Obj.lru_id (charge s) i (s.hashtable.lookup id) +
      Part.share Obj.lru_id (charge s) i x + s.obj_md_size * m i)
    (hobjs : ∀ i, t.lru_n_objs i = s.lru_n_objs i - Part.share Obj.lru_id (fun _ => 1) i (s.hashtable.lookup id) +
      Part.share Obj.lru_id (fun _ => 1) i x)
    (hocc : ∑ i ∈ Finset.range s.n_seg, t.lru_n_bytes i - t.occupied_byte =
      ∑ i ∈ Finset.range s.n_seg, s.lru_n_bytes i - s.occupied_byte) : Drifts s t m where
  inv := hinv
  n_seg := hn
  md := hmd
  max := hmax
  n_bytes i := by
    have hcharge : charge t = charge s := by
      funext o
      rw [charge, charge, hmd]
    rw [hcharge, Part.total_sets (charge s) h.wf hs i, hbytes]
    show _ - (_ - Part.share _ _ _ (s.hashtable.lookup id) + _) = _
    omega
  n_objs i := by
    have hlen := Part.total_sets (fun _ => 1) h.wf hs i
    rw [h.wf.total_one, hinv.wf.total_one] at hlen
    have hlen' : ((t.segs i).length : Int) = (s.segs i).length - Part.share Obj.lru_id (fun _ => 1) i (s.hashtable.lookup id) +
      Part.share Obj.lru_id (fun _ => 1) i x := hlen
    rw [hobjs, hlen']
    omega
  occupied := by rw [hn, hocc]

theorem sum_add {n : Nat} (f : Nat → Int) (k : Int) (hi : i < n) : ∑ j ∈ Finset.range n,
    add f i k j = ∑ j ∈ Finset.range n, f j + k := by
  unfold add
  rw [Finset.sum_update_of_mem (Finset.mem_range.2 hi), ← Finset.sum_erase_add _ _ (Finset.mem_range.2 hi),
    Finset.sdiff_singleton_eq_erase]
  omega

theorem add_apply (f : Nat → Int) (i j : Nat) (k : Int) : add f i k j = f j + if i = j then k else 0 := by
  unfold add
  rcases eq_or_ne j i with rfl | hj
  · simp
  · simp [hj, hj.symm]

theorem Inv.erase_other (h : Inv s) (ho : s.hashtable.lookup id = some obj) (hi : i ≠ obj.lru_id) :
    (s.segs i).erase id = s.segs i := by
  apply List.erase_of_not_mem
  rw [h.segs, ho]
  rintro ⟨o, ⟨⟩, hid⟩
  exact hi hid.symm

theorem move_sets (h : Inv s) (ho : s.hashtable.lookup id = some obj) (i : Nat) (n_bytes : Int) :
    Part.Sets Obj.lru_id (part s) (part (move_to_seg s id obj i n_bytes)) id (some { obj with lru_id := i }) where
  table_eq := Table.lookup_insert_eq_update _ _ _
  list_perm k := by
    have herase : update s.segs obj.lru_id ((s.segs obj.lru_id).erase id) k = (s.segs k).erase id := by
      rcases eq_or_ne k obj.lru_id with rfl | hk
      · simp
      · rw [update_of_ne hk, h.erase_other ho hk]
    unfold part move_to_seg
    dsimp only
    rcases eq_or_ne k i with rfl | hk
    · rw [update_self, herase]
      simp
    · rw [update_of_ne hk, herase]
      simp [hk.symm]

theorem remove_sets (h : Inv s) (ho : s.hashtable.lookup id = some obj) :
    Part.Sets Obj.lru_id (part s) (part (remove_obj s id obj)) id none where
  table_eq := Table.lookup_erase_eq_update _ _
  list_perm k := by
    unfold part remove_obj
    dsimp only
    rcases eq_or_ne k obj.lru_id with rfl | hk
    · simp
    · rw [update_of_ne hk, h.erase_other ho hk]
      simp

theorem share_some (w : Obj → Int) (i : Nat) (o : Obj) : Part.share Obj.lru_id w i (some o) = if o.lru_id = i then w o else 0 := rfl

theorem share_none (w : Obj → Int) (i : Nat) : Part.share Obj.lru_id w i none = 0 := rfl

theorem move_drifts (h : Inv s) (ho : s.hashtable.lookup id = some obj) (hi : i < s.n_seg) (n_bytes a : Int)
    (hn : n_bytes = charge s obj - s.obj_md_size * a) :
    Drifts s (move_to_seg s id obj i n_bytes) fun k => (if obj.lru_id = k then a else 0) - if i = k then a else 0 := by
  apply Drifts.of_sets h (h.move_to_seg ho hi n_bytes) (move_sets h ho i n_bytes) rfl rfl rfl
  · intro k
    unfold move_to_seg
    dsimp only
    rw [ho, share_some, share_some, add_apply, add_apply, hn]
    have hcharge : charge s { obj with lru_id := i } = charge s obj := rfl
    split_ifs <;> simp <;> omega
  · intro k
    unfold move_to_seg
    dsimp only
    rw [ho, share_some, share_some, add_apply, add_apply]
    split_ifs <;> omega
  · unfold move_to_seg
    dsimp only
    rw [sum_add _ _ hi, sum_add _ _ (h.lt_n_seg id obj ho)]
    omega

theorem promote_drifts (h : Inv s) (ho : s.hashtable.lookup id = some obj) (hi : obj.lru_id + 1 < s.n_seg) :
    Drifts s (SLRU_promote_to_next_seg s id obj) 0 := by
  have hd := move_drifts h ho hi (charge s obj) 0 (by simp)
  have hzero : (fun k => (if obj.lru_id = k then 0 else 0) - if obj.lru_id + 1 = k then 0 else 0 : Nat → Int) = 0 := by
    funext k
    simp
  rwa [hzero] at hd

theorem evict_drifts (h : Inv s) (ht : SLRU_evict pin s = some t) : Drifts s t 0 := by
  have hinv := (h.evict ht).1
  obtain ⟨v, -, ht⟩ := bind_eq_some_iff.1 ht
  obtain ⟨obj, ho, ht⟩ := bind_eq_some_iff.1 ht
  cases ht
  apply Drifts.of_sets h hinv (remove_sets h ho) rfl rfl rfl
  · intro k
    unfold remove_obj
    dsimp only
    rw [ho, share_some, share_none, add_apply]
    unfold charge
    split_ifs
    · simp
      omega
    · simp
  · intro k
    unfold remove_obj
    dsimp only
    rw [ho, share_some, share_none, add_apply]
    split_ifs <;> omega
  · unfold remove_obj
    dsimp only
    rw [sum_add _ _ (h.lt_n_seg v obj ho)]
    omega

theorem move_to_head_drifts (h : Inv s) (ho : s.hashtable.lookup id = some obj) :
    Drifts s { s with segs := update s.segs obj.lru_id (id :: (s.segs obj.lru_id).erase id) } 0 := by
  have hsets : Part.Sets Obj.lru_id (part s)
      (part { s with segs := update s.segs obj.lru_id (id :: (s.segs obj.lru_id).erase id) }) id (some obj) := by
    constructor
    · funext x
      rcases eq_or_ne x id with rfl | hx
      · simpa [part] using ho
      · simp [part, hx]
    · intro k
      unfold part
      dsimp only
      rcases eq_or_ne k obj.lru_id with rfl | hk
      · simp
      · rw [update_of_ne hk, h.erase_other ho hk]
        simp [hk.symm]
  apply Drifts.of_sets h (h.move_to_head ho) hsets rfl rfl rfl
  · rw [ho]
    simp
  · rw [ho]
    simp
  · rfl

def insert_at (s : State) (req : Request) (i : Nat) : State :=
  { s with
    occupied_byte := s.occupied_byte + (req.obj_size + s.obj_md_size)
    n_obj := s.n_obj + 1
    hashtable := s.hashtable.insert req.obj_id { obj_size := req.obj_size, lru_id := i }
    segs := update s.segs i (req.obj_id :: s.segs i)
    lru_n_bytes := add s.lru_n_bytes i (req.obj_size + s.obj_md_size)
    lru_n_objs := add s.lru_n_objs i 1 }

theorem SLRU_insert_eq (pin : Pin) (s : State) (req : Request) :
    SLRU_insert pin s req = (choose_seg pin s req).map fun c => insert_at c.1 req c.2 := by
  rw [map_eq_bind]
  rfl

theorem insert_sets (h : Inv s) (hmiss : req.obj_id ∉ s.hashtable) (i : Nat) :
    Part.Sets Obj.lru_id (part s) (part (insert_at s req i)) req.obj_id (some { obj_size := req.obj_size, lru_id := i }) where
  table_eq := Table.lookup_insert_eq_update _ _ _
  list_perm k := by
    have hout : req.obj_id ∉ s.segs k := by
      rw [h.segs, lookup_eq_none.2 hmiss]
      simp
    unfold part insert_at
    rw [List.erase_of_not_mem hout]
    rcases eq_or_ne k i with rfl | hk
    · simp
    · simp [hk, hk.symm]

theorem insert_drifts (h : Inv s) (hi : i < s.n_seg) (hmiss : req.obj_id ∉ s.hashtable) :
    Drifts s (insert_at s req i) 0 := by
  have hnone := lookup_eq_none.2 hmiss
  apply Drifts.of_sets (t := insert_at s req i) h (h.insert_at hi hmiss rfl rfl rfl) (insert_sets h hmiss i) rfl rfl rfl
  · intro k
    unfold insert_at
    dsimp only
    rw [hnone, share_none, share_some, add_apply]
    unfold charge
    simp
  · intro k
    unfold insert_at
    dsimp only
    rw [hnone, share_none, share_some, add_apply]
    simp
  · unfold insert_at
    dsimp only
    rw [sum_add _ _ hi]
    omega

/-! ## Cooling -/

/-- Cooling from segment `i` down leaves the segments above alone, and lowers no object's segment number but down. -/
structure Cools (s t : State) (i : Nat) (m : Nat → Int) : Prop where
  drifts : Drifts s t m
  above : ∀ k, i < k → m k = 0
  lower : ∀ id o, t.hashtable.lookup id = some o → ∃ o', s.hashtable.lookup id = some o' ∧ o.lru_id ≤ o'.lru_id

theorem Cools.trans {m' : Nat → Int} (h : Cools s t i m) (h' : Cools t u i m') : Cools s u i (m + m') where
  drifts := h.drifts.trans h'.drifts
  above k hk := by
    rw [Pi.add_apply, h.above k hk, h'.above k hk]
    rfl
  lower id o ho := by
    obtain ⟨o', ho', hle'⟩ := h'.lower id o ho
    obtain ⟨o'', ho'', hle''⟩ := h.lower id o' ho'
    exact ⟨o'', ho'', hle'.trans hle''⟩

section

variable (h : Inv s)
include h

theorem Cools.refl (i : Nat) : Cools s s i 0 := ⟨.refl h, fun _ _ => rfl, fun _ o ho => ⟨o, ho, le_rfl⟩⟩

theorem evict_cools (ht : SLRU_evict pin s = some t) (i : Nat) : Cools s t i 0 := by
  refine ⟨evict_drifts h ht, fun _ _ => rfl, fun x o hx => ?_⟩
  obtain ⟨v, -, ht⟩ := bind_eq_some_iff.1 ht
  obtain ⟨obj, -, ht⟩ := bind_eq_some_iff.1 ht
  cases ht
  unfold remove_obj at hx
  rcases eq_or_ne x v with rfl | hne
  · simp at hx
  · rw [lookup_erase_ne hne] at hx
    exact ⟨o, hx, le_rfl⟩

theorem cool_cools (ht : SLRU_cool pin i s = some t) : ∃ m, Cools s t i m ∧ m i = if i = 0 then 0 else 1 := by
  induction i generalizing s t with
  | zero => exact ⟨0, evict_cools h ht 0, rfl⟩
  | succ i ih =>
    simp only [SLRU_cool, bind_eq_bind, bind_eq_some_iff] at ht
    obtain ⟨id, hlast, obj, ho, hloop⟩ := ht
    obtain ⟨o, ho', hseg⟩ := (h.segs (i + 1) id).1 (List.mem_of_getLast? hlast)
    cases ho.symm.trans ho'
    have hlt := h.lt_n_seg id obj ho
    have hmove := move_drifts h ho (i := i) (by omega) obj.obj_size 1 (by simp [charge])
    have hcools : Cools s (move_to_seg s id obj i obj.obj_size) (i + 1)
        fun k => (if obj.lru_id = k then 1 else 0) - if i = k then 1 else 0 := by
      refine ⟨hmove, fun k hk => ?_, fun x o hx => ?_⟩
      · rw [if_neg (by omega), if_neg (by omega)]
        rfl
      · unfold move_to_seg at hx
        rcases eq_or_ne x id with rfl | hne
        · rw [lookup_insert] at hx
          cases hx
          exact ⟨obj, ho, by dsimp only; omega⟩
        · rw [lookup_insert_ne hne] at hx
          exact ⟨o, hx, le_rfl⟩
    obtain ⟨⟨m, hm⟩, -⟩ := whileLoop_inv (fun w => ∃ m, Cools (move_to_seg s id obj i obj.obj_size) w i m)
      (fun w w' hw _ hcool => by
        obtain ⟨m, hm⟩ := hw
        obtain ⟨m', hm', -⟩ := ih hm.drifts.inv hcool
        exact ⟨m + m', hm.trans hm'⟩) _ _ _ ⟨0, .refl hmove.inv i⟩ hloop
    refine ⟨_, hcools.trans { hm with above := fun k hk => hm.above k (by omega) }, ?_⟩
    rw [Pi.add_apply, hm.above (i + 1) (by omega), if_pos hseg, if_neg (by omega), if_neg (by omega)]
    rfl

/-- The loop of `SLRU_find` from a state in which the object stands in segment `i`, not the lowest: unless it stops at
once, the byte counter of that segment is left too large. -/
theorem cool_for_cools (ho : s.hashtable.lookup id = some obj) (hi : obj.lru_id = i) (hpos : 0 < i)
    (ht : cool_for pin id s = some t) : ∃ m, Drifts s t m ∧ if too_full i s then 1 ≤ m i else m = 0 := by
  let I : State → Prop := fun w => (w = s ∧ too_full i s = true) ∨ ∃ m, Cools s w i m ∧ 1 ≤ m i
  have hbody : ∀ w w', I w → ((w.hashtable.lookup id).all fun obj => too_full obj.lru_id w) = true →
      ((w.hashtable.lookup id).bind fun obj => SLRU_cool pin obj.lru_id w) = some w' → I w' := by
    intro w w' hw _ hcool
    obtain ⟨o, ho', hcool⟩ := bind_eq_some_iff.1 hcool
    right
    rcases hw with ⟨rfl, -⟩ | ⟨m, hm, hone⟩
    · cases ho.symm.trans ho'
      rw [hi] at hcool
      obtain ⟨m, hm, hone⟩ := cool_cools h hcool
      rw [if_neg hpos.ne'] at hone
      exact ⟨m, hm, hone.ge⟩
    · obtain ⟨o', hs, hle⟩ := hm.lower id o ho'
      cases ho.symm.trans hs
      obtain ⟨m', hm', hone'⟩ := cool_cools hm.drifts.inv hcool
      refine ⟨m + m', hm.trans { hm' with above := fun k hk => hm'.above k (by omega) }, ?_⟩
      -- the object has gone down from segment `i`, or not
      have hnonneg : 0 ≤ m' i := by
        rcases Nat.lt_or_eq_of_le hle with hlt | heq
        · rw [hm'.above i (by omega)]
        · rw [hi] at heq
          rw [heq] at hone'
          rw [hone']
          split_ifs <;> omega
      rw [Pi.add_apply]
      omega
  unfold cool_for at ht
  by_cases hfull : too_full i s = true
  · simp only [if_pos hfull]
    obtain ⟨hw, hstop⟩ := whileLoop_inv I hbody _ _ _ (.inl ⟨rfl, hfull⟩) ht
    rcases hw with ⟨rfl, -⟩ | ⟨m, hm, hone⟩
    · rw [ho, all_some, hi, hfull] at hstop
      cases hstop
    · exact ⟨m, hm.drifts, hone⟩
  · simp only [if_neg hfull]
    rw [whileLoop_stop _ _ _ _ (by simpa [ho, hi] using hfull)] at ht
    cases ht
    exact ⟨0, .refl h, rfl⟩

/-! ## Calls -/

theorem find_drifts {hit : Bool} (ht : SLRU_find pin s req = some (t, hit)) :
    ∃ m, Drifts s t m ∧ (m = 0 ∨ ∃ i < s.n_seg, m i ≠ 0) ∧ (m = 0 ↔ Rises s req) := by
  unfold SLRU_find at ht
  rcases ho : s.hashtable.lookup req.obj_id with _ | obj
  · rw [ho] at ht
    cases ht
    exact ⟨0, .refl h, .inl rfl, by simp [Rises, ho]⟩
  · rw [ho] at ht
    dsimp only at ht
    split_ifs at ht with htop
    · cases ht
      refine ⟨0, move_to_head_drifts h ho, .inl rfl, iff_of_true rfl fun o ho' hlt => ?_⟩
      cases ho.symm.trans ho'
      omega
    · obtain ⟨u, hu, heq⟩ := map_eq_some_iff.1 ht
      cases heq
      have hlt := h.lt_n_seg _ _ ho
      have hpromote := promote_drifts h ho (by omega)
      have hentry : (SLRU_promote_to_next_seg s req.obj_id obj).hashtable.lookup req.obj_id =
          some { obj with lru_id := obj.lru_id + 1 } := by
        exact lookup_insert _
      obtain ⟨m, hm, hfull⟩ := cool_for_cools (i := obj.lru_id + 1) hpromote.inv hentry rfl (Nat.succ_pos _) hu
      have htoo : too_full (obj.lru_id + 1) (SLRU_promote_to_next_seg s req.obj_id obj) = true ↔
          s.lru_max_n_bytes (obj.lru_id + 1) < s.lru_n_bytes (obj.lru_id + 1) + charge s obj := by
        unfold too_full SLRU_promote_to_next_seg move_to_seg charge
        simp [add_apply]
      have hd := hpromote.trans hm
      rw [zero_add] at hd
      refine ⟨m, hd, ?_, ?_⟩
      · split_ifs at hfull
        · exact .inr ⟨obj.lru_id + 1, by omega, by omega⟩
        · exact .inl hfull
      · split_ifs at hfull with hyes
        · refine iff_of_false (fun hzero => ?_) (fun hall => ?_)
          · rw [hzero] at hfull
            exact absurd hfull (by simp)
          · have hle := hall obj ho (by omega)
            rw [htoo] at hyes
            omega
        · refine iff_of_true hfull fun o ho' _ => ?_
          cases ho.symm.trans ho'
          rw [htoo] at hyes
          omega

theorem insert_drifts_of_some (hmiss : req.obj_id ∉ s.hashtable) (ht : SLRU_insert pin s req = some t) : Drifts s t 0 := by
  rw [SLRU_insert_eq] at ht
  obtain ⟨⟨u, i⟩, hchoice, rfl⟩ := map_eq_some_iff.1 ht
  unfold choose_seg at hchoice
  split at hchoice
  next j hj =>
    cases hchoice
    exact insert_drifts h (List.mem_range.1 (List.mem_of_find?_eq_some hj)) hmiss
  next =>
    obtain ⟨v, hloop, heq⟩ := map_eq_some_iff.1 hchoice
    cases heq
    obtain ⟨⟨hd, hmiss'⟩, -⟩ := whileLoop_inv (fun w => Drifts s w 0 ∧ req.obj_id ∉ w.hashtable) (fun a b ha _ hb =>
      ⟨by simpa using ha.1.trans (evict_drifts ha.1.inv hb), fun hmem => ha.2 ((ha.1.inv.evict hb).2 _ hmem)⟩) _ _ _
      ⟨.refl h, hmiss⟩ hloop
    simpa using hd.trans (insert_drifts hd.inv hd.inv.pos hmiss')

theorem count_req_drifts : Drifts s { s with n_req := s.n_req + 1 } 0 := by
  refine ⟨h.of_eq rfl rfl rfl, rfl, rfl, rfl, fun i => ?_, fun _ => rfl, rfl⟩
  rw [Pi.zero_apply, Int.mul_zero, Int.add_zero]
  rfl

theorem get_drifts {hit : Bool} (hget : SLRU_get pin s req = some (t, hit)) :
    ∃ m, Drifts s t m ∧ (m = 0 ∨ ∃ i < s.n_seg, m i ≠ 0) ∧ (m = 0 ↔ Rises s req) := by
  have hcount := count_req_drifts h
  cases hit with
  | true =>
    obtain ⟨m, hm, hwhere, hiff⟩ := find_drifts hcount.inv (CacheOps.cache_get_base_found hget)
    exact ⟨m, by simpa using hcount.trans hm, hwhere, hiff⟩
  | false =>
    obtain ⟨s1, s2, admitted, hf, hc, hrest⟩ := CacheOps.cache_get_base_missed hget
    obtain ⟨rfl, hmiss⟩ := hcount.inv.find hf
    cases hc
    have hrises : Rises s req := by
      intro obj ho
      rw [lookup_eq_none.2 hmiss] at ho
      cases ho
    refine ⟨0, ?_, .inl rfl, iff_of_true rfl hrises⟩
    split_ifs at hrest
    · obtain ⟨s3, hw, hi⟩ := hrest
      obtain ⟨⟨hd, hmiss'⟩, -⟩ := whileLoop_inv (fun w => Drifts s w 0 ∧ req.obj_id ∉ w.hashtable) (fun a b ha _ hb =>
        ⟨by simpa using ha.1.trans (evict_drifts ha.1.inv hb), fun hmem => ha.2 ((ha.1.inv.evict hb).2 _ hmem)⟩) _ _ _
        ⟨hcount, hmiss⟩ hw
      simpa using hd.trans (insert_drifts_of_some hd.inv hmiss' hi)
    · subst hrest
      exact hcount

end

theorem remove_accounted_iff (h : Accounted s) : Accounted (SLRU_remove s id).1 ↔ id ∉ s.hashtable := by
  unfold SLRU_remove
  rcases ho : s.hashtable.lookup id with _ | obj
  · exact iff_of_true h (lookup_eq_none.1 ho)
  · refine iff_of_false (fun hafter => ?_) (fun hmiss => ?_)
    · replace hafter : Accounted (remove_obj s id obj) := hafter
      have hlt := h.lt_n_seg id obj ho
      have hbefore := h.n_objs _ hlt
      have hcount := hafter.n_objs _ hlt
      have hmem : id ∈ s.segs obj.lru_id := (h.listed _ _).2 ⟨obj, ho, rfl⟩
      have hlen : ((remove_obj s id obj).segs obj.lru_id).length + 1 = (s.segs obj.lru_id).length := by
        unfold remove_obj
        dsimp only
        rw [update_self, List.length_erase_of_mem hmem]
        have hpos := List.length_pos_of_mem hmem
        omega
      have hsame : (remove_obj s id obj).lru_n_objs = s.lru_n_objs := rfl
      rw [hsame] at hcount
      omega
    · rw [lookup_eq_none.2 hmiss] at ho
      cases ho

theorem call_accounted_iff (h : Accounted s) (hinv : Inv s) {c : Pin.Call} (hc : call s c = some t) : Accounted t ↔ Counts s c := by
  cases c with
  | get pin req =>
    obtain ⟨⟨u, hit⟩, hget, rfl⟩ := map_eq_some_iff.1 hc
    obtain ⟨m, hm, hwhere, hiff⟩ := get_drifts hinv hget
    rw [hm.accounted_iff h, Counts, ← hiff]
    constructor
    · intro hzero
      rcases hwhere with hm0 | ⟨i, hi, hne⟩
      · exact .inr hm0
      · exact .inl ((Int.mul_eq_zero.1 (hzero i hi)).resolve_right hne)
    · rintro (hmd | rfl) i -
      · rw [hmd, Int.zero_mul]
      · exact Int.mul_zero _
  | evict pin =>
    rw [(evict_drifts hinv hc).accounted_iff h]
    exact iff_of_true (fun _ _ => Int.mul_zero _) trivial
  | remove id =>
    cases hc
    exact remove_accounted_iff h

theorem init_accounted (cache_size : Int) (md : Bool) (n_seg : Nat) (seg_size : Option (Nat → Int)) :
    Accounted (SLRU_init cache_size md n_seg seg_size) := by
  constructor <;> simp [SLRU_init, part, Part.total]

/-- The counters are right in every state of a run that avoids the two slips, and the next call keeps them right if and
only if it does. -/
theorem SLRU_accounting (cache_size : Int) (md : Bool) {n_seg : Nat} (hn : 0 < n_seg) (seg_size : Option (Nat → Int))
    {s : State} (h : Reach call Counts (SLRU_init cache_size md n_seg seg_size) s) :
    Accounted s ∧ ∀ c t, call s c = some t → (Accounted t ↔ Counts s c) := by
  obtain ⟨hinv, hacc⟩ := h.inv (fun s => Inv s ∧ Accounted s)
    (fun s c t hs hc ht => ⟨hs.1.call ht, (call_accounted_iff hs.2 hs.1 ht).2 hc⟩)
    ⟨init_inv cache_size md seg_size hn, init_accounted cache_size md n_seg seg_size⟩
  exact ⟨hacc, fun c t => call_accounted_iff hacc hinv⟩

theorem SLRU_accounting_of_four : ∃ s, Reach call Counts (SLRU_init 100 true 2 none) s ∧ s.lru_n_bytes 1 = 26 ∧ Accounted s ∧
    ∀ c t, call s c = some t → (Accounted t ↔ Counts s c) := by
  obtain ⟨s, hs, hbytes⟩ : ∃ s, runs (fun s c => if Counts s c then call s c else none) (SLRU_init 100 true 2 none)
      [.get none { obj_id := 1, obj_size := 10 }, .get none { obj_id := 1, obj_size := 10 },
        .get none { obj_id := 2 }, .remove 3] = some s ∧ s.lru_n_bytes 1 = 26 := by
    decide +kernel
  have hreach := Reach.of_checked hs
  exact ⟨s, hreach, hbytes, SLRU_accounting 100 true (by decide) none hreach⟩

/-- A resident object is removed, and its segment counts it still. -/
theorem not_SLRU_accounting : ¬ ∀ (cache_size : Int) (md : Bool) (n_seg : Nat) (s : State), 0 < n_seg →
    Reach call (fun _ _ => True) (SLRU_init cache_size md n_seg none) s → Accounted s := by
  intro hclaim
  obtain ⟨s, hs, hn, hobjs, hseg⟩ : ∃ s,
      runs call (SLRU_init 4 false 2 none) [.get none { obj_id := 1 }, .remove 1] = some s ∧
      s.n_seg = 2 ∧ s.lru_n_objs 0 = 1 ∧ s.segs 0 = [] := by decide +kernel
  have hcount := (hclaim 4 false 2 s (by decide) (.of_runs (fun _ _ _ => trivial) hs)).n_objs 0 (by omega)
  rw [hobjs, hseg] at hcount
  cases hcount

end CacheSim.Slru
