import CacheSim.Slru.Model

/-!
# The segments of SLRU and the pins

An eviction sees the objects of the segments whose byte counter is positive, and no others.
-/

namespace CacheSim.Slru

open Lib List Option AList Function

structure Inv (s : State) : Prop where
  pos : 0 < s.n_seg
  segs : ∀ i x, x ∈ s.segs i ↔ ∃ o, s.hashtable.lookup x = some o ∧ o.lru_id = i
  nodup : ∀ i, (s.segs i).Nodup
  lt_n_seg : ∀ x o, s.hashtable.lookup x = some o → o.lru_id < s.n_seg

variable {n_seg : Nat}

theorem init_inv (cache_size : Int) (md : Bool) (seg_size : Option (Nat → Int))
    (hn : 0 < n_seg) : Inv (SLRU_init cache_size md n_seg seg_size) := by
  constructor <;> simp [SLRU_init, hn]

variable {s : State} {id : ObjId} {obj : Obj}

theorem Inv.of_eq (h : Inv s) {t : State} (htable : t.hashtable = s.hashtable) (hsegs : t.segs = s.segs)
    (hn : t.n_seg = s.n_seg) : Inv t := by
  constructor
  · rw [hn]
    exact h.pos
  · rw [htable, hsegs]
    exact h.segs
  · rw [hsegs]
    exact h.nodup
  · rw [htable, hn]
    exact h.lt_n_seg

/-! ## One object leaves its segment, or enters one -/

theorem mem_update_erase (h : Inv s) (i : Nat) (x : ObjId) :
    x ∈ update s.segs obj.lru_id ((s.segs obj.lru_id).erase id) i ↔
      x ∈ s.segs i ∧ (i = obj.lru_id → x ≠ id) := by
  rcases eq_or_ne i obj.lru_id with rfl | hi
  · rw [update_self, (h.nodup _).mem_erase_iff]
    tauto
  · rw [update_of_ne hi]
    tauto

theorem nodup_update_erase (h : Inv s) (i : Nat) : (update s.segs obj.lru_id ((s.segs obj.lru_id).erase id) i).Nodup := by
  rcases eq_or_ne i obj.lru_id with rfl | hi
  · rw [update_self]
    exact (h.nodup _).erase id
  · rw [update_of_ne hi]
    exact h.nodup i

theorem Inv.remove_obj (h : Inv s) (ho : s.hashtable.lookup id = some obj) : Inv (remove_obj s id obj) where
  pos := h.pos
  segs := by
    intro i x
    unfold Slru.remove_obj
    rw [mem_update_erase h, h.segs]
    rcases eq_or_ne x id with rfl | hx
    · rw [lookup_erase, ho]
      simp
      tauto
    · simp [hx]
  nodup := nodup_update_erase h
  lt_n_seg := by
    intro x o hx
    unfold Slru.remove_obj at hx
    rcases eq_or_ne x id with rfl | hne
    · simp at hx
    · rw [lookup_erase_ne hne] at hx
      exact h.lt_n_seg x o hx

theorem mem_update_cons (segs : Nat → List ObjId) (i j : Nat) (x : ObjId) :
    x ∈ update segs i (id :: segs i) j ↔ x ∈ segs j ∨ j = i ∧ x = id := by
  rcases eq_or_ne j i with rfl | hj
  · simp [or_comm]
  · simp [hj]

variable {i : Nat}

theorem Inv.move_to_seg (h : Inv s) (ho : s.hashtable.lookup id = some obj) (hi : i < s.n_seg) (n_bytes : Int) :
    Inv (move_to_seg s id obj i n_bytes) where
  pos := h.pos
  segs := by
    intro j x
    unfold Slru.move_to_seg
    rw [mem_update_cons, mem_update_erase h, h.segs]
    rcases eq_or_ne x id with rfl | hx
    · rw [lookup_insert, ho]
      simp
      tauto
    · simp [hx]
  nodup := by
    intro j
    unfold Slru.move_to_seg
    dsimp only
    rcases eq_or_ne j i with rfl | hj
    · rw [update_self, nodup_cons, mem_update_erase h, h.segs, ho]
      refine ⟨?_, nodup_update_erase h j⟩
      simp
      tauto
    · rw [update_of_ne hj]
      exact nodup_update_erase h j
  lt_n_seg := by
    intro x o hx
    unfold Slru.move_to_seg at hx
    rcases eq_or_ne x id with rfl | hne
    · rw [lookup_insert] at hx
      cases hx
      exact hi
    · rw [lookup_insert_ne hne] at hx
      exact h.lt_n_seg x o hx

theorem Inv.move_to_head (h : Inv s) (ho : s.hashtable.lookup id = some obj) :
    Inv { s with segs := update s.segs obj.lru_id (id :: (s.segs obj.lru_id).erase id) } where
  __ := h
  segs := by
    intro i x
    dsimp only
    rw [← h.segs]
    rcases eq_or_ne i obj.lru_id with rfl | hi
    · have hid : id ∈ s.segs obj.lru_id := (h.segs _ _).2 ⟨obj, ho, rfl⟩
      rw [update_self]
      exact (perm_cons_erase hid).mem_iff.symm
    · rw [update_of_ne hi]
  nodup := by
    intro i
    dsimp only
    rcases eq_or_ne i obj.lru_id with rfl | hi
    · have hid : id ∈ s.segs obj.lru_id := (h.segs _ _).2 ⟨obj, ho, rfl⟩
      rw [update_self]
      exact (perm_cons_erase hid).nodup_iff.1 (h.nodup _)
    · rw [update_of_ne hi]
      exact h.nodup i

/-! ## An eviction -/

variable (pin : Pin)

theorem mem_live_segs (i : Nat) : i ∈ live_segs s ↔ i < s.n_seg ∧ 0 < s.lru_n_bytes i := by
  simp [live_segs]

variable {v : ObjId}

theorem mem_of_skip {queue : List ObjId} (h : pin.cache_skip_pinned queue = some v) : v ∈ queue := by
  rcases eq_nil_or_concat' queue with rfl | ⟨l, a, rfl⟩
  · simp [Pin.cache_skip_pinned] at h
  · obtain ⟨v', hv', hmem, -⟩ := pin.cache_skip_pinned_spec (by simp : l ++ [a] ≠ [])
    exact some.inj (hv'.symm.trans h) ▸ hmem

theorem mem_of_to_evict (hv : SLRU_to_evict pin s = some v) : ∃ i ∈ live_segs s, v ∈ s.segs i := by
  rcases or_eq_some_iff.1 hv with hc | ⟨-, hf⟩
  · obtain ⟨i, hi, hskip⟩ := exists_of_findSome?_eq_some hc
    exact ⟨i, hi, mem_of_skip pin (filter_eq_some_iff.1 hskip).1⟩
  · obtain ⟨i, hi, hlast⟩ := exists_of_findSome?_eq_some hf
    exact ⟨i, hi, mem_of_getLast? hlast⟩

variable {x : ObjId}

theorem free_of_to_evict (hv : SLRU_to_evict pin s = some v) (hi : i ∈ live_segs s)
    (hx : x ∈ s.segs i) (hfree : pin.is_pinned x = false) : pin.is_pinned v = false := by
  obtain ⟨c, hskip, -, hspec⟩ := pin.cache_skip_pinned_spec (ne_nil_of_mem hx)
  have hc : ((pin.cache_skip_pinned (s.segs i)).filter fun id => !pin.is_pinned id).isSome = true := by
    rw [hskip]
    simp [hspec ⟨x, hx, hfree⟩]
  rcases or_eq_some_iff.1 hv with hsome | ⟨hnone, -⟩
  · obtain ⟨j, -, hj⟩ := exists_of_findSome?_eq_some hsome
    simpa using (filter_eq_some_iff.1 hj).2
  · rw [findSome?_eq_none_iff.1 hnone i hi] at hc
    exact absurd hc (by simp)

theorem to_evict_isSome (hi : i ∈ live_segs s) (hx : x ∈ s.segs i) : ∃ v, SLRU_to_evict pin s = some v := by
  rw [← isSome_iff_exists]
  unfold SLRU_to_evict
  rw [isSome_or, Bool.or_eq_true]
  right
  rw [isSome_findSome?, List.any_eq_true]
  exact ⟨i, hi, by simpa using ne_nil_of_mem hx⟩

theorem SLRU_evict_spec (h : Inv s) (hv : SLRU_to_evict pin s = some v) :
    ∃ t, SLRU_evict pin s = some t ∧ Inv t ∧ v ∈ s.hashtable ∧ ∀ x, x ∈ t.hashtable ↔ x ≠ v ∧ x ∈ s.hashtable := by
  obtain ⟨i, -, hmem⟩ := mem_of_to_evict pin hv
  obtain ⟨o, ho, -⟩ := (h.segs i v).1 hmem
  refine ⟨_, by simp [SLRU_evict, hv, ho]; rfl, ?_, Table.mem_of_lookup ho, fun x => mem_erase⟩
  apply Inv.remove_obj
  · exact h.of_eq rfl rfl rfl
  · exact ho

/-- Some object stands in a segment with a positive byte counter, and it is not pinned unless all
objects are. -/
def Offers (s : State) : Prop :=
  ∃ e ∈ s.hashtable.entries, 0 < s.lru_n_bytes e.2.lru_id ∧
    (pin.is_pinned e.1 = true → ∀ x ∈ s.hashtable.keys, pin.is_pinned x = true)

variable {pin}

theorem SLRU_evict_honours_iff (h : Inv s) : pin.Honours (fun s x => x ∈ s.hashtable) (SLRU_evict pin) s ↔ Offers pin s := by
  rcases hv : SLRU_to_evict pin s with _ | v
  · -- the code follows a null pointer, and no object is offered
    constructor
    · rintro ⟨t, v, ht, -⟩
      simp [SLRU_evict, hv] at ht
    · rintro ⟨e, he, hbytes, -⟩
      have ho := Table.lookup_of_mem_entries he
      obtain ⟨v, hsome⟩ := to_evict_isSome pin ((mem_live_segs _).2 ⟨h.lt_n_seg _ _ ho, hbytes⟩)
        ((h.segs _ _).2 ⟨e.2, ho, rfl⟩)
      rw [hv] at hsome
      exact absurd hsome (by simp)
  · obtain ⟨t, ht, -, hmem, hleft⟩ := SLRU_evict_spec pin h hv
    rw [Pin.Honours.iff_victim ht hmem hleft]
    constructor
    · intro hpin
      obtain ⟨i, hi, hvi⟩ := mem_of_to_evict pin hv
      obtain ⟨o, ho, rfl⟩ := (h.segs i v).1 hvi
      refine ⟨⟨v, o⟩, Table.mem_entries_of_lookup ho, ((mem_live_segs _).1 hi).2, ?_⟩
      intro hpinned x hx
      by_contra hfree
      have := hpin ⟨x, hx, by simpa using hfree⟩
      rw [hpinned] at this
      exact absurd this (by simp)
    · rintro ⟨e, he, hbytes, hpin⟩ ⟨x, hx, hfree⟩
      have ho := Table.lookup_of_mem_entries he
      apply free_of_to_evict pin hv ((mem_live_segs _).2 ⟨h.lt_n_seg _ _ ho, hbytes⟩) ((h.segs _ _).2 ⟨e.2, ho, rfl⟩)
      by_contra hpinned
      have := hpin (by simpa using hpinned) x hx
      rw [hfree] at this
      exact absurd this (by simp)

/-! ## Every state that is reached -/

variable {t : State} {req : Request}

theorem Inv.evict (h : Inv s) (ht : SLRU_evict pin s = some t) : Inv t ∧ ∀ x ∈ t.hashtable, x ∈ s.hashtable := by
  obtain ⟨v, hv, -⟩ := bind_eq_some_iff.1 ht
  obtain ⟨t', ht', hinv, -, hleft⟩ := SLRU_evict_spec pin h hv
  obtain rfl : t' = t := some.inj (ht'.symm.trans ht)
  exact ⟨hinv, fun x hx => ((hleft x).1 hx).2⟩

theorem Inv.cool (h : Inv s) (ht : SLRU_cool pin i s = some t) : Inv t := by
  induction i generalizing s t with
  | zero => exact (h.evict ht).1
  | succ i ih =>
    simp only [SLRU_cool, bind_eq_bind, bind_eq_some_iff] at ht
    obtain ⟨id, hlast, obj, ho, hloop⟩ := ht
    obtain ⟨o, ho', hseg⟩ := (h.segs (i + 1) id).1 (mem_of_getLast? hlast)
    have hlt := h.lt_n_seg id o ho'
    exact (whileLoop_inv Inv (fun s s' hs _ hcool => ih hs hcool) _ _ _ (h.move_to_seg ho (by omega) _) hloop).1

theorem Inv.cool_for (h : Inv s) (ht : cool_for pin id s = some t) : Inv t := by
  refine (whileLoop_inv Inv ?_ _ _ _ h ht).1
  intro s s' hs _ hbody
  obtain ⟨obj, -, hcool⟩ := bind_eq_some_iff.1 hbody
  exact hs.cool hcool

variable {hit : Bool}

section

variable (h : Inv s)
include h

theorem Inv.find (ht : SLRU_find pin s req = some (t, hit)) :
    if hit then Inv t else t = s ∧ req.obj_id ∉ s.hashtable := by
  unfold SLRU_find at ht
  rcases ho : s.hashtable.lookup req.obj_id with _ | obj
  · rw [ho] at ht
    cases ht
    exact ⟨rfl, lookup_eq_none.1 ho⟩
  · rw [ho] at ht
    dsimp only at ht
    split_ifs at ht with htop
    · cases ht
      exact h.move_to_head ho
    · obtain ⟨u, hu, heq⟩ := map_eq_some_iff.1 ht
      cases heq
      have hlt := h.lt_n_seg _ _ ho
      exact (h.move_to_seg ho (by omega) _).cool_for hu

theorem Inv.insert_at (hi : i < s.n_seg) (hmiss : req.obj_id ∉ s.hashtable)
    (hn : t.n_seg = s.n_seg)
    (htable : t.hashtable = s.hashtable.insert req.obj_id { obj_size := req.obj_size, lru_id := i })
    (hsegs : t.segs = update s.segs i (req.obj_id :: s.segs i)) : Inv t where
  pos := hn ▸ h.pos
  segs := by
    intro j x
    rw [hsegs, htable, mem_update_cons, h.segs]
    rcases eq_or_ne x req.obj_id with rfl | hx
    · rw [lookup_insert, lookup_eq_none.2 hmiss]
      simp
      tauto
    · simp [hx]
  nodup := by
    intro j
    rw [hsegs]
    rcases eq_or_ne j i with rfl | hj
    · rw [update_self, nodup_cons, h.segs, lookup_eq_none.2 hmiss]
      exact ⟨by simp, h.nodup j⟩
    · rw [update_of_ne hj]
      exact h.nodup j
  lt_n_seg := by
    intro x o hx
    rw [htable] at hx
    rw [hn]
    rcases eq_or_ne x req.obj_id with rfl | hne
    · rw [lookup_insert] at hx
      cases hx
      exact hi
    · rw [lookup_insert_ne hne] at hx
      exact h.lt_n_seg x o hx

theorem Inv.insert (hmiss : req.obj_id ∉ s.hashtable) (ht : SLRU_insert pin s req = some t) : Inv t := by
  simp only [SLRU_insert, bind_eq_bind, bind_eq_some_iff, Prod.exists] at ht
  obtain ⟨u, i, hchoice, hu⟩ := ht
  have hchosen : Inv u ∧ i < u.n_seg ∧ req.obj_id ∉ u.hashtable := by
    unfold choose_seg at hchoice
    split at hchoice
    next j hj =>
      cases hchoice
      exact ⟨h, mem_range.1 (mem_of_find?_eq_some hj), hmiss⟩
    next =>
      obtain ⟨v, hloop, heq⟩ := map_eq_some_iff.1 hchoice
      cases heq
      obtain ⟨⟨hv, hmiss'⟩, -⟩ := whileLoop_inv (fun s => Inv s ∧ req.obj_id ∉ s.hashtable) (fun a b ha _ hb =>
        ⟨(ha.1.evict hb).1, fun hmem => ha.2 ((ha.1.evict hb).2 _ hmem)⟩) _ _ _ ⟨h, hmiss⟩ hloop
      exact ⟨hv, hv.pos, hmiss'⟩
  obtain ⟨hu', hi, hmiss'⟩ := hchosen
  cases hu
  exact hu'.insert_at hi hmiss' rfl rfl rfl

theorem Inv.get (ht : SLRU_get pin s req = some (t, hit)) : Inv t := by
  let Miss : State → Prop := fun s => Inv s ∧ req.obj_id ∉ s.hashtable
  refine CacheOps.cache_get_base_inv Inv Miss Inv ?_ ?_ ?_ ?_ h ht
  · intro s s' hit hs hfind
    have hs1 : Inv { s with n_req := s.n_req + 1 } := hs.of_eq rfl rfl rfl
    have hfound := hs1.find hfind
    split_ifs at hfound ⊢ with hhit
    · exact hfound
    · obtain ⟨rfl, hmiss⟩ := hfound
      exact ⟨hs1, hmiss⟩
  · rintro s s' admitted hs hcan
    obtain ⟨rfl, -⟩ := hcan
    split_ifs
    · exact hs
    · exact hs.1
  · rintro s s' ⟨hs, hmiss⟩ - hevict
    obtain ⟨hs', hold⟩ := hs.evict hevict
    exact ⟨hs', fun hmem => hmiss (hold _ hmem)⟩
  · rintro s s' ⟨hs, hmiss⟩ - hinsert
    exact hs.insert hmiss hinsert

theorem Inv.remove (id : ObjId) : Inv (SLRU_remove s id).1 := by
  unfold SLRU_remove
  rcases ho : s.hashtable.lookup id with _ | obj
  · exact h
  · exact h.remove_obj ho

theorem Inv.call {c : Pin.Call} (ht : call s c = some t) : Inv t := by
  cases c with
  | get pin req =>
    obtain ⟨⟨u, hit⟩, hget, rfl⟩ := map_eq_some_iff.1 ht
    exact h.get hget
  | evict pin => exact (h.evict ht).1
  | remove id =>
    cases ht
    exact h.remove id

end

theorem inv_of_reach {cache_size : Int} {md : Bool} {seg_size : Option (Nat → Int)}
    (hn : 0 < n_seg) (h : Reach call (fun _ _ => True) (SLRU_init cache_size md n_seg seg_size) s) :
    Inv s :=
  h.inv Inv (fun _ _ _ hs _ ht => hs.call ht) (init_inv _ _ _ hn)

end CacheSim.Slru
