import CacheSim.Slru.Accounting
import Mathlib.Algebra.Order.BigOperators.Group.Finset

/-!
# The cascade of a promotion

Without metadata an object that is admitted fits every segment.
-/

namespace CacheSim.Slru

open Lib List Option AList Function Int Table

variable {c : Int} {n : Nat} {mx : Nat → Int} {s t : State} {id : ObjId} {obj : Obj} {req : Request}

structure Good (c : Int) (n : Nat) (mx : Nat → Int) (s : State) : Prop where
  inv : Inv s
  acc : Accounted s
  md : s.obj_md_size = 0
  cache_size : s.cache_size = c
  n_seg : s.n_seg = n
  max : s.lru_max_n_bytes = mx
  sizes : ∀ id obj, s.hashtable.lookup id = some obj → 1 ≤ obj.obj_size ∧ obj.obj_size ≤ mx 0
  fits : s.occupied_byte ≤ c

def Fits (mx : Nat → Int) (s : State) (i : Nat) : Prop := ∀ k, 1 ≤ k → k < i → s.lru_n_bytes k ≤ mx k

theorem Good.charge_nonneg (h : Good c n mx s) {x : ObjId} {o : Obj} (ho : (part s).table x = some o) : 0 ≤ charge s o := by
  have hsize := (h.sizes x o ho).1
  have hmd := h.md
  unfold charge
  omega

variable {i : Nat}

section

variable (h : Good c n mx s)
include h

theorem Good.bytes_nonneg (hi : i < n) : 0 ≤ s.lru_n_bytes i := by
  rw [h.acc.n_bytes i (h.n_seg ▸ hi)]
  exact Part.total_nonneg (charge s) (fun _ _ => h.charge_nonneg) i

theorem Good.size_le_bytes (ho : s.hashtable.lookup id = some obj) : obj.obj_size ≤ s.lru_n_bytes obj.lru_id := by
  have hlt := h.inv.lt_n_seg id obj ho
  have hmem : id ∈ (part s).list obj.lru_id := (h.inv.segs _ _).2 ⟨obj, ho, rfl⟩
  have hle := Part.weight_le_total (charge s) (fun _ _ => h.charge_nonneg) hmem
  have hweight : (part s).weight (charge s) id = obj.obj_size := by
    simp [Part.weight, part, ho, charge, h.md]
  rw [h.acc.n_bytes _ hlt]
  omega

theorem Good.segs_ne_nil (hi : i < n) (hpos : 0 < s.lru_n_bytes i) : s.segs i ≠ [] := by
  apply Part.list_ne_nil_of_total (P := part s) (charge s)
  rw [← h.acc.n_bytes i (h.n_seg ▸ hi)]
  omega

theorem Good.bytes_of_alone (ho : s.hashtable.lookup id = some obj) (hseg : s.segs obj.lru_id = [id]) :
    s.lru_n_bytes obj.lru_id = obj.obj_size := by
  rw [h.acc.n_bytes _ (h.inv.lt_n_seg id obj ho)]
  simp [Part.total, Part.weight, part, hseg, ho, charge, h.md]

theorem Good.of_drifts {m : Nat → Int} (hd : Drifts s t m) (hcs : t.cache_size = s.cache_size)
    (hsizes : ∀ id obj, t.hashtable.lookup id = some obj → 1 ≤ obj.obj_size ∧ obj.obj_size ≤ mx 0) (hocc : t.occupied_byte ≤ c) :
    Good c n mx t where
  inv := hd.inv
  acc := (hd.accounted_iff h.acc).2 fun i _ => by rw [h.md, zero_mul]
  md := hd.md.trans h.md
  cache_size := hcs.trans h.cache_size
  n_seg := hd.n_seg.trans h.n_seg
  max := hd.max.trans h.max
  sizes := hsizes
  fits := hocc

end

theorem moves_left_eq (s : State) : (moves_left s : Int) = Table.weigh (fun _ o => (o.lru_id : Int) + 1) s.hashtable := by
  unfold moves_left Table.weigh
  rw [Nat.cast_list_sum, List.map_map]
  congr 1

/-! ## One object goes -/

theorem erase_last {l : List ObjId} {v : ObjId} (hnodup : l.Nodup) (hlast : l.getLast? = some v) : l.erase v = l.dropLast := by
  obtain ⟨l', rfl⟩ := getLast?_eq_some_iff.1 hlast
  have hout : v ∉ l' := fun hmem => (nodup_append.1 hnodup).2.2 v hmem v (by simp) rfl
  rw [erase_append_right _ hout]
  simp

structure Evicted (c : Int) (n : Nat) (mx : Nat → Int) (s t : State) : Prop where
  good : Good c n mx t
  n_bytes : ∀ k, t.lru_n_bytes k ≤ s.lru_n_bytes k
  moves : moves_left t < moves_left s
  occ : t.occupied_byte < s.occupied_byte
  count : t.hashtable.entries.length < s.hashtable.entries.length
  absent : ∀ x ∉ s.hashtable, x ∉ t.hashtable
  /-- it takes the tail of the lowest segment if that is not empty -/
  lowest : 0 < s.lru_n_bytes 0 → t.segs 0 = (s.segs 0).dropLast ∧ ∀ k, 0 < k → t.segs k = s.segs k ∧ t.lru_n_bytes k = s.lru_n_bytes k

theorem to_evict_unpinned (s : State) : SLRU_to_evict none s = (live_segs s).findSome? fun i => (s.segs i).getLast? := by
  have hskip : ∀ l : List ObjId, (Pin.cache_skip_pinned none l).filter (fun id => !Pin.is_pinned none id) = l.getLast? := by
    intro l
    rcases eq_nil_or_concat' l with rfl | ⟨l, v, rfl⟩
    · rfl
    · simp [Pin.cache_skip_pinned, Pin.is_pinned]
  unfold SLRU_to_evict
  simp only [hskip]
  rw [Option.or_self]

theorem to_evict_lowest (hn : 0 < s.n_seg) (hpos : 0 < s.lru_n_bytes 0) (hne : s.segs 0 ≠ []) :
    SLRU_to_evict none s = (s.segs 0).getLast? := by
  obtain ⟨m, hm⟩ := Nat.exists_eq_succ_of_ne_zero hn.ne'
  rw [to_evict_unpinned, live_segs, hm, range_succ_eq_map, filter_cons_of_pos (by simpa using hpos), findSome?_cons,
    getLast?_eq_some_getLast hne]

theorem exists_live (h : Good c n mx s) (hocc : 0 < s.occupied_byte) : ∃ i < n, 0 < s.lru_n_bytes i := by
  by_contra hnone
  push Not at hnone
  have hsum := Finset.sum_nonpos fun i hi => hnone i (h.n_seg ▸ Finset.mem_range.1 hi)
  rw [h.acc.occupied] at hsum
  omega

theorem Good.bytes_le_occupied (h : Good c n mx s) (hi : i < n) : s.lru_n_bytes i ≤ s.occupied_byte := by
  rw [← h.acc.occupied, h.n_seg]
  exact Finset.single_le_sum (fun k hk => h.bytes_nonneg (Finset.mem_range.1 hk)) (Finset.mem_range.2 hi)

theorem evict_spec (h : Good c n mx s) (hocc : 0 < s.occupied_byte) : ∃ t, SLRU_evict none s = some t ∧ Evicted c n mx s t := by
  obtain ⟨i, hi, hlive⟩ := exists_live h hocc
  obtain ⟨x, hx⟩ := exists_mem_of_ne_nil _ (h.segs_ne_nil hi hlive)
  obtain ⟨v, hv⟩ := to_evict_isSome none ((mem_live_segs i).2 ⟨h.n_seg ▸ hi, hlive⟩) hx
  obtain ⟨j, -, hvj⟩ := mem_of_to_evict none hv
  obtain ⟨obj, ho, rfl⟩ := (h.inv.segs j v).1 hvj
  obtain ⟨t, ht⟩ : ∃ t, SLRU_evict none s = some t := ⟨_, by simp [SLRU_evict, hv, ho]; rfl⟩
  have hd := evict_drifts h.inv ht
  have hold := (h.inv.evict ht).2
  have hsize := h.sizes v obj ho
  have hmd := h.md
  have heq := ht
  simp only [SLRU_evict, hv, ho, bind_eq_bind, bind_some, Option.pure_def, some.injEq] at heq
  have htable : t.hashtable = s.hashtable.erase v := by rw [← heq]; rfl
  have hocc' : t.occupied_byte = s.occupied_byte - (obj.obj_size + s.obj_md_size) := by rw [← heq]; rfl
  have hbytes : t.lru_n_bytes = add s.lru_n_bytes obj.lru_id (-(obj.obj_size + s.obj_md_size)) := by rw [← heq]; rfl
  have hsegs : t.segs = update s.segs obj.lru_id ((s.segs obj.lru_id).erase v) := by rw [← heq]; rfl
  have hfits := h.fits
  refine ⟨t, ht, ?_, ?_, ?_, by omega, ?_, fun x hx hxt => hx (hold x hxt), ?_⟩
  · refine h.of_drifts hd (by rw [← heq]; rfl) (fun x o hx => h.sizes x o ?_) (by omega)
    rw [htable] at hx
    rcases eq_or_ne x v with rfl | hne
    · simp at hx
    · rwa [lookup_erase_ne hne] at hx
  · intro k
    rw [hbytes, add_apply]
    split_ifs <;> omega
  · have hmoves := moves_left_eq t
    rw [htable, weigh_erase _ ho, ← moves_left_eq] at hmoves
    omega
  · have hcount := weigh_one t.hashtable
    rw [htable, weigh_erase _ ho, weigh_one] at hcount
    rw [htable]
    omega
  · intro hpos
    have hlowest := to_evict_lowest h.inv.pos hpos (h.segs_ne_nil (h.n_seg ▸ h.inv.pos) hpos)
    rw [hv] at hlowest
    have hmem := mem_of_getLast? hlowest.symm
    obtain ⟨o, ho', hzero⟩ := (h.inv.segs 0 v).1 hmem
    cases ho.symm.trans ho'
    refine ⟨?_, fun k hk => ⟨?_, ?_⟩⟩
    · rw [hsegs, hzero, update_self, erase_last (h.inv.nodup 0) hlowest.symm]
    · rw [hsegs, update_of_ne (by omega)]
    · rw [hbytes, add_apply, if_neg (by omega), add_zero]

/-! ## Cooling -/

structure Cooled (c : Int) (n : Nat) (mx : Nat → Int) (i : Nat) (s t : State) : Prop where
  good : Good c n mx t
  fits : Fits mx t i
  tail : t.segs i = (s.segs i).dropLast
  above : ∀ k, i < k → t.segs k = s.segs k ∧ t.lru_n_bytes k = s.lru_n_bytes k
  moves : moves_left t < moves_left s
  occ : t.occupied_byte ≤ s.occupied_byte

theorem Fits.of_le (h : Fits mx s i) (hle : ∀ k, t.lru_n_bytes k ≤ s.lru_n_bytes k) : Fits mx t i :=
  fun k hk hki => (hle k).trans (h k hk hki)

structure Ascending (n : Nat) (mx : Nat → Int) : Prop where
  pos : 1 ≤ mx 0
  le : ∀ i < n, mx 0 ≤ mx i

theorem move_down_spec (h : Good c n mx s) (hi : i + 1 < n) (hlast : (s.segs (i + 1)).getLast? = some id)
    (ho : s.hashtable.lookup id = some obj) : Good c n mx (move_to_seg s id obj i obj.obj_size) ∧ obj.lru_id = i + 1 ∧
      moves_left (move_to_seg s id obj i obj.obj_size) + 1 = moves_left s := by
  obtain ⟨o, ho', hseg⟩ := (h.inv.segs (i + 1) id).1 (mem_of_getLast? hlast)
  cases ho.symm.trans ho'
  have hn := h.n_seg
  have hd := move_drifts h.inv ho (i := i) (by omega) obj.obj_size 1 (by simp [charge])
  refine ⟨h.of_drifts hd rfl (fun x o hx => ?_) h.fits, hseg, ?_⟩
  · unfold move_to_seg at hx
    rcases eq_or_ne x id with rfl | hne
    · rw [lookup_insert] at hx
      cases hx
      exact h.sizes x obj ho
    · rw [lookup_insert_ne hne] at hx
      exact h.sizes x o hx
  · have hmoves := moves_left_eq (move_to_seg s id obj i obj.obj_size)
    have htable : (move_to_seg s id obj i obj.obj_size).hashtable = s.hashtable.insert id { obj with lru_id := i } := rfl
    rw [htable, weigh_update _ ho, ← moves_left_eq] at hmoves
    dsimp only at hmoves
    omega

theorem cool_spec (hmx : Ascending n mx) (h : Good c n mx s) (hi : i < n) (hfits : Fits mx s i) (hpos : 0 < s.lru_n_bytes i) :
    ∃ t, SLRU_cool none i s = some t ∧ Cooled c n mx i s t := by
  induction i generalizing s with
  | zero =>
    have hle := h.bytes_le_occupied hi
    obtain ⟨t, ht, hev⟩ := evict_spec h (by omega)
    obtain ⟨htail, habove⟩ := hev.lowest hpos
    exact ⟨t, ht, hev.good, hfits.of_le hev.n_bytes, htail, habove, hev.moves, hev.occ.le⟩
  | succ i ih =>
    have hne := h.segs_ne_nil hi hpos
    have hlast := getLast?_eq_some_getLast hne
    set id := (s.segs (i + 1)).getLast hne
    obtain ⟨obj, ho, -⟩ := (h.inv.segs (i + 1) id).1 (mem_of_getLast? hlast)
    obtain ⟨hgood, hseg, hmoves⟩ := move_down_spec h hi hlast ho
    have hsegs : (move_to_seg s id obj i obj.obj_size).segs (i + 1) = (s.segs (i + 1)).dropLast := by
      unfold move_to_seg
      dsimp only
      rw [update_of_ne (by omega), hseg, update_self, erase_last (h.inv.nodup _) hlast]
    have hother : ∀ k ≠ i, k ≠ i + 1 → (move_to_seg s id obj i obj.obj_size).segs k = s.segs k ∧
        (move_to_seg s id obj i obj.obj_size).lru_n_bytes k = s.lru_n_bytes k := by
      intro k hk hk'
      unfold move_to_seg
      dsimp only
      rw [update_of_ne hk, update_of_ne (hseg ▸ hk'), add_apply, add_apply, if_neg (by omega), if_neg (by omega)]
      exact ⟨rfl, by omega⟩
    set u := move_to_seg s id obj i obj.obj_size
    let I : State → Prop := fun w => Good c n mx w ∧ Fits mx w i ∧
      (∀ k, i < k → w.segs k = u.segs k ∧ w.lru_n_bytes k = u.lru_n_bytes k) ∧
      moves_left w ≤ moves_left u ∧ w.occupied_byte ≤ u.occupied_byte
    have hbody : ∀ w, I w → too_full i w = true → ∃ w', SLRU_cool none i w = some w' ∧ I w' ∧ moves_left w' < moves_left w := by
      rintro w ⟨hw, hwfits, habove, hmv, hocc⟩ hfull
      have hfull' : mx i < w.lru_n_bytes i := by simpa [too_full, hw.max] using hfull
      have hmin := hmx.le i (by omega)
      have hone := hmx.pos
      obtain ⟨w', hcool, hc⟩ := ih hw (by omega) hwfits (by omega)
      have hmv' := hc.moves
      refine ⟨w', hcool, ⟨hc.good, hc.fits, fun k hk => ?_, by omega, hc.occ.trans hocc⟩, hmv'⟩
      exact ⟨(hc.above k hk).1.trans (habove k hk).1, (hc.above k hk).2.trans (habove k hk).2⟩
    have hstart : I u := by
      refine ⟨hgood, fun k hk hki => ?_, fun k _ => ⟨rfl, rfl⟩, le_rfl, le_rfl⟩
      rw [(hother k (by omega) (by omega)).2]
      exact hfits k hk (by omega)
    obtain ⟨t, hloop, ⟨ht, htfits, habove, hmv, hocc⟩, hstop⟩ := whileLoop_total I moves_left hbody (moves_left u) u hstart le_rfl
    have hstop' : t.lru_n_bytes i ≤ mx i := by simpa [too_full, ht.max] using hstop
    refine ⟨t, ?_, ht, fun k hk hki => ?_, ?_, fun k hk => ?_, by omega, hocc⟩
    · simp only [SLRU_cool, hlast, ho, bind_eq_bind, bind_some]
      exact hloop
    · rcases Nat.lt_succ_iff_lt_or_eq.1 hki with hlt | rfl
      · exact htfits k hk hlt
      · exact hstop'
    · rw [(habove (i + 1) (by omega)).1, hsegs]
    · obtain ⟨hseg', hbytes'⟩ := hother k (by omega) (by omega)
      exact ⟨(habove k (by omega)).1.trans hseg', (habove k (by omega)).2.trans hbytes'⟩

/-! ## Lookup and insertion -/

structure Steady (c : Int) (n : Nat) (mx : Nat → Int) (s : State) : Prop extends Good c n mx s where
  segments : Fits mx s n

structure Promoted (c : Int) (n : Nat) (mx : Nat → Int) (id : ObjId) (i : Nat) (s : State) : Prop extends Good c n mx s where
  resident : ∃ rest, s.segs i = id :: rest
  below : Fits mx s i
  above : ∀ k, i < k → k < n → s.lru_n_bytes k ≤ mx k

theorem promote_spec (h : Steady c n mx s) (ho : s.hashtable.lookup id = some obj) (hi : obj.lru_id + 1 < n) :
    Promoted c n mx id (obj.lru_id + 1) (SLRU_promote_to_next_seg s id obj) := by
  have hsize := h.sizes id obj ho
  have hmd := h.md
  have hbytes : ∀ k, (SLRU_promote_to_next_seg s id obj).lru_n_bytes k =
      s.lru_n_bytes k + (if obj.lru_id = k then -obj.obj_size else 0) + if obj.lru_id + 1 = k then obj.obj_size else 0 := by
    intro k
    unfold SLRU_promote_to_next_seg move_to_seg
    dsimp only
    rw [add_apply, add_apply, hmd, add_zero]
  refine ⟨h.toGood.of_drifts (promote_drifts h.inv ho (h.n_seg ▸ hi)) rfl (fun x o hx => ?_) h.fits, ?_, fun k hk hki => ?_,
    fun k hk hkn => ?_⟩
  · unfold SLRU_promote_to_next_seg move_to_seg at hx
    rcases eq_or_ne x id with rfl | hne
    · rw [lookup_insert] at hx
      cases hx
      exact hsize
    · rw [lookup_insert_ne hne] at hx
      exact h.sizes x o hx
  · unfold SLRU_promote_to_next_seg move_to_seg
    dsimp only
    rw [update_self]
    exact ⟨_, rfl⟩
  · have hle := h.segments k hk (by omega)
    have hne : ¬ obj.lru_id + 1 = k := by omega
    rw [hbytes, if_neg hne]
    split_ifs <;> omega
  · have hle := h.segments k (by omega) hkn
    rw [hbytes, if_neg (by omega), if_neg (by omega)]
    omega

section

variable (hmx : Ascending n mx)
include hmx

theorem Promoted.rest_ne_nil (hi : i < n) (h : Promoted c n mx id i s) (hfull : mx i < s.lru_n_bytes i)
    {rest : List ObjId} (hseg : s.segs i = id :: rest) : rest ≠ [] := by
  rintro rfl
  obtain ⟨o, ho, rfl⟩ := (h.inv.segs i id).1 (by simp [hseg])
  have halone := h.toGood.bytes_of_alone ho hseg
  have hsize := h.sizes id o ho
  have hle := hmx.le _ hi
  omega

theorem cool_for_spec (hpos : 0 < i) (hi : i < n) (h : Promoted c n mx id i s) :
    ∃ t, cool_for none id s = some t ∧ Steady c n mx t ∧ id ∈ t.hashtable ∧ t.occupied_byte ≤ s.occupied_byte := by
  have hlookup : ∀ w, Promoted c n mx id i w → ∃ o, w.hashtable.lookup id = some o ∧ o.lru_id = i := by
    intro w hw
    obtain ⟨rest, hrest⟩ := hw.resident
    exact (hw.inv.segs i id).1 (by simp [hrest])
  let I : State → Prop := fun w => Promoted c n mx id i w ∧ w.occupied_byte ≤ s.occupied_byte
  have hbody : ∀ w, I w → ((w.hashtable.lookup id).all fun obj => too_full obj.lru_id w) = true →
      ∃ w', ((w.hashtable.lookup id).bind fun obj => SLRU_cool none obj.lru_id w) = some w' ∧ I w' ∧ moves_left w' < moves_left w := by
    rintro w ⟨hw, hocc⟩ hcond
    obtain ⟨o, ho, hseg⟩ := hlookup w hw
    have hfull : mx i < w.lru_n_bytes i := by simpa [ho, hseg, too_full, hw.max] using hcond
    have hone := hmx.pos
    have hmin := hmx.le i hi
    obtain ⟨w', hcool, hc⟩ := cool_spec hmx hw.toGood hi hw.below (by omega)
    obtain ⟨rest, hrest⟩ := hw.resident
    have hne := hw.rest_ne_nil hmx hi hfull hrest
    refine ⟨w', by simpa [ho, hseg] using hcool, ⟨⟨hc.good, ⟨rest.dropLast, ?_⟩, hc.fits, fun k hk hkn => ?_⟩,
      hc.occ.trans hocc⟩, hc.moves⟩
    · rw [hc.tail, hrest, dropLast_cons_of_ne_nil hne]
    · rw [(hc.above k hk).2]
      exact hw.above k hk hkn
  obtain ⟨t, hloop, ⟨ht, hocc⟩, hstop⟩ := whileLoop_total I moves_left hbody (moves_left s) s ⟨h, le_rfl⟩ le_rfl
  obtain ⟨o, ho, hseg⟩ := hlookup t ht
  refine ⟨t, hloop, ⟨ht.toGood, fun k hk hkn => ?_⟩, mem_of_lookup ho, hocc⟩
  rcases Nat.lt_trichotomy k i with hlt | rfl | hgt
  · exact ht.below k hk hlt
  · simpa [ho, hseg, too_full, ht.max] using hstop
  · exact ht.above k hgt hkn

theorem find_spec (h : Steady c n mx s) (req : Request) :
    ∃ t hit, SLRU_find none s req = some (t, hit) ∧ Steady c n mx t ∧ t.occupied_byte ≤ s.occupied_byte ∧
      if hit then req.obj_id ∈ t.hashtable else t = s ∧ req.obj_id ∉ s.hashtable := by
  unfold SLRU_find
  rcases ho : s.hashtable.lookup req.obj_id with _ | obj
  · exact ⟨s, false, rfl, h, le_rfl, rfl, lookup_eq_none.1 ho⟩
  · have hlt := h.inv.lt_n_seg _ _ ho
    have hn := h.n_seg
    dsimp only
    split_ifs with htop
    · refine ⟨_, true, rfl, ⟨h.toGood.of_drifts (move_to_head_drifts h.inv ho) rfl h.sizes h.fits, h.segments⟩, le_rfl, ?_⟩
      exact mem_of_lookup ho
    · obtain ⟨t, ht, hsteady, hin, hocc⟩ := cool_for_spec hmx (Nat.succ_pos _) (by omega) (promote_spec h ho (by omega))
      exact ⟨t, true, by rw [ht]; rfl, hsteady, hocc, hin⟩

end

theorem Steady.evict (h : Steady c n mx s) (hev : Evicted c n mx s t) : Steady c n mx t :=
  ⟨hev.good, h.segments.of_le hev.n_bytes⟩

theorem insert_at_steady (h : Steady c n mx s) (hmiss : req.obj_id ∉ s.hashtable) (hsize : 1 ≤ req.obj_size ∧ req.obj_size ≤ mx 0)
    (hroom : s.occupied_byte + req.obj_size ≤ c) (hi : i < n) (hfits : i = 0 ∨ s.lru_n_bytes i + req.obj_size ≤ mx i) :
    Steady c n mx (insert_at s req i) := by
  have hmd := h.md
  refine ⟨h.toGood.of_drifts (insert_drifts h.inv (h.n_seg ▸ hi) hmiss) rfl (fun x o hx => ?_) ?_, fun k hk hkn => ?_⟩
  · unfold insert_at at hx
    rcases eq_or_ne x req.obj_id with rfl | hne
    · rw [lookup_insert] at hx
      cases hx
      exact hsize
    · rw [lookup_insert_ne hne] at hx
      exact h.sizes x o hx
  · unfold insert_at
    dsimp only
    omega
  · have hle := h.segments k hk hkn
    unfold insert_at
    dsimp only
    rw [add_apply, hmd, add_zero]
    split_ifs with heq
    · subst heq
      omega
    · omega

theorem insert_spec (hn : 0 < n) (h : Steady c n mx s) (hmiss : req.obj_id ∉ s.hashtable)
    (hsize : 1 ≤ req.obj_size ∧ req.obj_size ≤ mx 0)
    (hroom : s.occupied_byte + req.obj_size ≤ c) : ∃ t, SLRU_insert none s req = some t ∧ Steady c n mx t := by
  have hmd := h.md
  have hnseg := h.n_seg
  have hcs := h.cache_size
  rw [SLRU_insert_eq]
  unfold choose_seg
  split
  next i hfind =>
    have hfits := find?_some hfind
    have hi := mem_range.1 (mem_of_find?_eq_some hfind)
    rw [hmd, h.max, add_zero, decide_eq_true_eq] at hfits
    exact ⟨_, rfl, insert_at_steady h hmiss hsize hroom (by omega) (.inr hfits)⟩
  next =>
    -- the evictions before the insertion have made room
    have hstop : full_for req s = false := by
      simp [full_for, hmd, hcs, hroom]
    rw [whileLoop_stop _ _ _ _ hstop]
    exact ⟨_, rfl, insert_at_steady h hmiss hsize hroom hn (.inl rfl)⟩

/-! ## Runs -/

theorem Steady.count_req (h : Steady c n mx s) : Steady c n mx { s with n_req := s.n_req + 1 } :=
  ⟨h.toGood.of_drifts (count_req_drifts h.inv) rfl h.sizes h.fits, h.segments⟩

theorem full_for_good (h : Good c n mx s) : (ops none).full_for req s = true ↔ c < s.occupied_byte + req.obj_size := by
  rw [CacheOps.full_for_iff]
  dsimp only [ops]
  rw [h.md, h.cache_size, add_zero]

theorem get_spec (hmx : Ascending n mx) (hn : 0 < n) (h : Steady c n mx s) (hsize : 1 ≤ req.obj_size) :
    ∃ t hit, SLRU_get none s req = some (t, hit) ∧ Steady c n mx t := by
  let Miss : State → Prop := fun t => Steady c n mx t ∧ req.obj_id ∉ t.hashtable
  let Admitted : State → Prop := fun t => Miss t ∧ req.obj_size ≤ mx 0 ∧ req.obj_size ≤ c
  apply CacheOps.cache_get_base_total (Steady c n mx) Miss Admitted (Steady c n mx) (fun t => t.hashtable.entries.length)
    (fun _ _ => le_rfl) ?_ ?_ ?_ ?_ h
  · intro t ht
    obtain ⟨t', hit, hfind, ht', -, hwhere⟩ := find_spec hmx ht.count_req req
    refine ⟨t', hit, hfind, ?_⟩
    split_ifs at hwhere ⊢
    · exact ht'
    · exact ⟨ht', hwhere.1 ▸ hwhere.2⟩
  · rintro t ⟨ht, hmiss⟩
    refine ⟨t, _, rfl, ?_⟩
    split_ifs with hadm
    · have hmd := ht.md
      have hcs := ht.cache_size
      have hmax := ht.max
      simp only [SLRU_can_insert, hmd, hmax, add_zero, Bool.and_eq_true, Bool.not_eq_true', decide_eq_false_iff_not,
        decide_eq_true_eq] at hadm
      exact ⟨⟨ht, hmiss⟩, hadm.2, by omega⟩
    · exact ht
  · rintro t ⟨⟨ht, hmiss⟩, hsmall, hfits⟩ hfull
    rw [full_for_good ht.toGood] at hfull
    obtain ⟨t', hev, hevicted⟩ := evict_spec ht.toGood (by omega)
    exact ⟨t', hev, ⟨⟨ht.evict hevicted, hevicted.absent _ hmiss⟩, hsmall, hfits⟩, hevicted.count⟩
  · rintro t ⟨⟨ht, hmiss⟩, hsmall, hfits⟩ hroom
    rw [← Bool.not_eq_true, full_for_good ht.toGood] at hroom
    exact insert_spec hn ht hmiss ⟨hsize, hsmall⟩ (by omega)

theorem default_ascending {cache_size n_seg : Nat} (hn : 1 ≤ n_seg) (hle : n_seg ≤ cache_size) :
    Ascending n_seg (SLRU_init cache_size false n_seg none).lru_max_n_bytes := by
  have hdiv : 1 ≤ (cache_size : Int) / n_seg := by
    rw [Int.le_ediv_iff_mul_le (by omega)]
    omega
  unfold SLRU_init
  simp only [getD_none]
  refine ⟨?_, fun i _ => ?_⟩
  · omega
  · split_ifs <;> omega

theorem init_steady (cache_size n_seg : Nat) (hn : 1 ≤ n_seg) (hle : n_seg ≤ cache_size) :
    Steady cache_size n_seg (SLRU_init cache_size false n_seg none).lru_max_n_bytes (SLRU_init cache_size false n_seg none) where
  inv := init_inv _ _ _ hn
  acc := init_accounted _ _ _ _
  md := rfl
  cache_size := rfl
  n_seg := rfl
  max := rfl
  sizes := by simp [SLRU_init]
  fits := natCast_nonneg cache_size
  segments := by
    intro k _ hk
    have hasc := default_ascending hn hle
    have hmax := hasc.pos.trans (hasc.le k hk)
    exact (zero_le_ofNat 1).trans hmax

def SLRU_serve (s : State) (req : Request) : Option State := (SLRU_get none s req).map Prod.fst

theorem serve_spec (hmx : Ascending n mx) (hn : 0 < n) (h : Steady c n mx s) (hsize : 1 ≤ req.obj_size) :
    ∃ t, SLRU_serve s req = some t ∧ Steady c n mx t := by
  obtain ⟨t, hit, hget, ht⟩ := get_spec hmx hn h hsize
  exact ⟨t, by simp [SLRU_serve, hget], ht⟩

/-- In every run of gets the upper segments and the cache stay within their sizes, every lookup returns, and what it
finds is resident when it does. -/
theorem SLRU_cascade {cache_size n_seg : Nat} (hn : 1 ≤ n_seg) (hle : n_seg ≤ cache_size) (reqs : List Request)
    (hsizes : ∀ req ∈ reqs, 1 ≤ req.obj_size) :
    ∃ s, runs SLRU_serve (SLRU_init cache_size false n_seg none) reqs = some s ∧ s.occupied_byte ≤ cache_size ∧
      (∀ i, 1 ≤ i → i < n_seg → (part s).total (charge s) i ≤ s.lru_max_n_bytes i ∧ s.lru_n_bytes i ≤ s.lru_max_n_bytes i) ∧
      ∀ req, ∃ t hit, (ops none).find ((ops none).count_req s) req = some (t, hit) ∧ (hit = true → req.obj_id ∈ t.hashtable) ∧
        t.occupied_byte ≤ cache_size := by
  have hasc := default_ascending hn hle
  obtain ⟨s, hrun, h⟩ := runs_total (Steady cache_size n_seg (SLRU_init cache_size false n_seg none).lru_max_n_bytes)
    (fun req : Request => 1 ≤ req.obj_size) (fun _ _ hs hsize => serve_spec hasc hn hs hsize) reqs _ hsizes
    (init_steady cache_size n_seg hn hle)
  refine ⟨s, hrun, h.fits, fun i hi hin => ?_, fun req => ?_⟩
  · have hbytes := h.segments i hi hin
    rw [← h.max] at hbytes
    rw [← h.acc.n_bytes i (h.n_seg ▸ hin)]
    exact ⟨hbytes, hbytes⟩
  · obtain ⟨t, hit, hfind, ht, -, hwhere⟩ := find_spec hasc h.count_req req
    refine ⟨t, hit, hfind, fun hhit => ?_, ht.fits⟩
    rw [if_pos hhit] at hwhere
    exact hwhere

theorem SLRU_cascade_of_five : ∃ s, runs SLRU_serve (SLRU_init (5 : Nat) false 3 none)
      [{ obj_id := 1 }, { obj_id := 2 }, { obj_id := 3, obj_size := 1 }, { obj_id := 1 }, { obj_id := 1 }] = some s ∧
    s.occupied_byte ≤ (5 : Nat) ∧
    (∀ i, 1 ≤ i → i < 3 → (part s).total (charge s) i ≤ s.lru_max_n_bytes i ∧ s.lru_n_bytes i ≤ s.lru_max_n_bytes i) ∧
    ∀ req, ∃ t hit, (ops none).find ((ops none).count_req s) req = some (t, hit) ∧ (hit = true → req.obj_id ∈ t.hashtable) ∧
      t.occupied_byte ≤ (5 : Nat) :=
  SLRU_cascade (by decide) (by decide) _ (by simp)

end CacheSim.Slru
