import CacheSim.Slru.Cascade

/-!
# SLRU as a part of another cache

A policy that inserts into it as it pleases may fill it beyond its size.
-/

namespace CacheSim.Slru

open Lib Option AList Function

variable {n : Nat} {mx : Nat → Int} {k : Int} {s t : State} {id : ObjId} {req : Request}

def size_of (s : State) (x : ObjId) : Option Int := (s.hashtable.lookup x).map (·.obj_size)

theorem evict_within (h : SLRU_evict none s = some t) : Within (size_of t) (size_of s) := by
  obtain ⟨v, -, h⟩ := bind_eq_some_iff.1 h
  obtain ⟨obj, -, h⟩ := bind_eq_some_iff.1 h
  cases h
  intro x m hx
  unfold size_of remove_obj at *
  rcases eq_or_ne x v with rfl | hne
  · rw [lookup_erase] at hx
    cases hx
  · rwa [lookup_erase_ne hne] at hx

theorem size_of_move_to_seg {obj : Obj} (ho : s.hashtable.lookup id = some obj) (i : Nat) (n_bytes : Int) :
    size_of (move_to_seg s id obj i n_bytes) = size_of s := by
  funext x
  unfold size_of move_to_seg
  rcases eq_or_ne x id with rfl | hne
  · rw [lookup_insert, ho]
    rfl
  · rw [lookup_insert_ne hne]

theorem cool_within {i : Nat} (h : SLRU_cool none i s = some t) : Within (size_of t) (size_of s) := by
  induction i generalizing s t with
  | zero => exact evict_within h
  | succ i ih =>
    simp only [SLRU_cool, bind_eq_bind, bind_eq_some_iff] at h
    obtain ⟨id, -, obj, ho, hloop⟩ := h
    rw [← size_of_move_to_seg ho i obj.obj_size]
    exact (whileLoop_inv (fun w => Within (size_of w) (size_of (move_to_seg s id obj i obj.obj_size)))
      (fun w w' hw _ hcool => (ih hcool).trans hw) _ _ _ (.refl _) hloop).1

theorem cool_for_within (h : cool_for none id s = some t) : Within (size_of t) (size_of s) := by
  refine (whileLoop_inv (fun w => Within (size_of w) (size_of s)) (fun w w' hw _ hbody => ?_) _ _ _ (.refl _) h).1
  obtain ⟨obj, -, hcool⟩ := bind_eq_some_iff.1 hbody
  exact (cool_within hcool).trans hw

theorem find_within {hit : Bool} (h : SLRU_find none s req = some (t, hit)) : Within (size_of t) (size_of s) := by
  unfold SLRU_find at h
  rcases ho : s.hashtable.lookup req.obj_id with _ | obj
  · rw [ho] at h
    cases h
    exact .refl _
  · rw [ho] at h
    dsimp only at h
    split_ifs at h
    · cases h
      exact .refl _
    · obtain ⟨u, hu, heq⟩ := map_eq_some_iff.1 h
      cases heq
      rw [← size_of_move_to_seg ho (obj.lru_id + 1) (obj.obj_size + s.obj_md_size)]
      exact cool_for_within hu

/-! ## The size of the cache -/

def resized (k : Int) (s : State) : State := { s with cache_size := k }

theorem evict_resized (k : Int) (s : State) : (SLRU_evict none s).map (resized k) = SLRU_evict none (resized k s) := by
  refine map_bind_eq (f := fun v => v) map_id' fun v => ?_
  exact map_bind_eq (f := fun o => o) map_id' fun _ => rfl

theorem cool_resized (k : Int) (i : Nat) (s : State) : (SLRU_cool none i s).map (resized k) = SLRU_cool none i (resized k s) := by
  induction i generalizing s with
  | zero => exact evict_resized k s
  | succ i ih =>
    refine map_bind_eq (f := fun v => v) map_id' fun v => ?_
    refine map_bind_eq (f := fun o => o) map_id' fun o => ?_
    exact whileLoop_map (resized k) (fun w => (rfl : too_full i w = too_full i (resized k w))) ih _ _

theorem cool_for_resized (k : Int) (id : ObjId) (s : State) :
    (cool_for none id s).map (resized k) = cool_for none id (resized k s) := by
  have hcond : ∀ w, ((w.hashtable.lookup id).all fun obj => too_full obj.lru_id w) =
      (((resized k w).hashtable.lookup id).all fun obj => too_full obj.lru_id (resized k w)) := fun _ => rfl
  refine whileLoop_map (resized k) hcond (fun w => ?_) _ _
  exact map_bind_eq (f := fun o => o) map_id' fun o => cool_resized k o.lru_id w

theorem find_resized (k : Int) (s : State) (req : Request) :
    (SLRU_find none s req).map (fun r => (resized k r.1, r.2)) = SLRU_find none (resized k s) req := by
  have hlook : (resized k s).hashtable.lookup req.obj_id = s.hashtable.lookup req.obj_id := rfl
  have hn : (resized k s).n_seg = s.n_seg := rfl
  unfold SLRU_find
  rw [hlook, hn]
  rcases s.hashtable.lookup req.obj_id with _ | obj
  · rfl
  · dsimp only
    split_ifs
    · rfl
    · have hmove : SLRU_promote_to_next_seg (resized k s) req.obj_id obj = resized k (SLRU_promote_to_next_seg s req.obj_id obj) := rfl
      rw [hmove, ← cool_for_resized, map_map, map_map]
      rfl

theorem find_cache_size {hit : Bool} (h : SLRU_find none s req = some (t, hit)) : t.cache_size = s.cache_size := by
  have hself := find_resized s.cache_size s req
  have hs : resized s.cache_size s = s := rfl
  rw [hs, h] at hself
  exact congrArg (fun r => r.1.cache_size) (some.inj hself).symm

theorem evict_cache_size (h : SLRU_evict none s = some t) : t.cache_size = s.cache_size := by
  have hself := evict_resized s.cache_size s
  have hs : resized s.cache_size s = s := rfl
  rw [hs, h] at hself
  show t.cache_size = (resized s.cache_size t).cache_size
  exact congrArg State.cache_size (some.inj hself).symm

def Loose (n : Nat) (mx : Nat → Int) (s : State) : Prop := ∃ k, Steady k n mx (resized k s)

theorem Steady.enlarge {k' : Int} (h : Steady k n mx (resized k s)) (hle : k ≤ k') : Steady k' n mx (resized k' s) where
  __ := h
  inv := h.inv.of_eq rfl rfl rfl
  acc := { h.acc with }
  cache_size := rfl
  fits := h.fits.trans hle

section

variable (h : Loose n mx s)
include h

theorem Loose.md : s.obj_md_size = 0 := by
  obtain ⟨k, hk⟩ := h
  exact hk.md

theorem Loose.max_eq : s.lru_max_n_bytes = mx := by
  obtain ⟨k, hk⟩ := h
  exact hk.max

theorem Loose.size_le {m : Int} (hid : size_of s id = some m) : 1 ≤ m ∧ m ≤ s.occupied_byte := by
  obtain ⟨k, hk⟩ := h
  obtain ⟨obj, ho, rfl⟩ := map_eq_some_iff.1 hid
  have hlt : obj.lru_id < n := hk.n_seg ▸ hk.inv.lt_n_seg id obj ho
  exact ⟨(hk.sizes id obj ho).1, (hk.toGood.size_le_bytes ho).trans (hk.toGood.bytes_le_occupied hlt)⟩

theorem Loose.occupied_nonneg : 0 ≤ s.occupied_byte := by
  obtain ⟨k, hk⟩ := h
  have hsum := hk.acc.occupied
  have hnonneg : 0 ≤ ∑ i ∈ Finset.range (resized k s).n_seg, (resized k s).lru_n_bytes i :=
    Finset.sum_nonneg fun i hi => hk.toGood.bytes_nonneg (hk.n_seg ▸ Finset.mem_range.1 hi)
  rw [hsum] at hnonneg
  exact hnonneg

end

theorem Loose.find (hmx : Ascending n mx) (h : Loose n mx s) (req : Request) :
    ∃ t, SLRU_find none s req = some (t, (size_of s req.obj_id).isSome) ∧ Loose n mx t ∧ t.occupied_byte ≤ s.occupied_byte := by
  obtain ⟨k, hk⟩ := h
  obtain ⟨t, hit, hfind, ht, hocc, hwhere⟩ := find_spec hmx hk req
  rw [← find_resized] at hfind
  obtain ⟨⟨u, hit'⟩, hu, heq⟩ := map_eq_some_iff.1 hfind
  cases heq
  have hfound : (size_of s req.obj_id).isSome = hit' := by
    cases hit' with
    | true =>
      obtain ⟨o, ho⟩ := Table.exists_lookup hwhere
      have hin := find_within hu req.obj_id o.obj_size (map_eq_some_iff.2 ⟨o, ho, rfl⟩)
      rw [hin]
      rfl
    | false =>
      unfold size_of
      rw [show s.hashtable.lookup req.obj_id = none from lookup_eq_none.2 hwhere.2]
      rfl
  exact ⟨u, by rw [hfound]; exact hu, ⟨k, ht⟩, hocc⟩

theorem Loose.evict (h : Loose n mx s) (hocc : 0 < s.occupied_byte) :
    ∃ t, SLRU_evict none s = some t ∧ Loose n mx t ∧ t.occupied_byte < s.occupied_byte ∧
      t.hashtable.entries.length < s.hashtable.entries.length := by
  obtain ⟨k, hk⟩ := h
  obtain ⟨t, hev, hevicted⟩ := evict_spec hk.toGood hocc
  rw [← evict_resized] at hev
  obtain ⟨u, hu, rfl⟩ := map_eq_some_iff.1 hev
  exact ⟨u, hu, ⟨k, hk.evict hevicted⟩, hevicted.occ, hevicted.count⟩

theorem Loose.insert_at (h : Loose n mx s) (hmiss : req.obj_id ∉ s.hashtable) (hsize : 1 ≤ req.obj_size ∧ req.obj_size ≤ mx 0)
    {i : Nat} (hi : i < n) (hfits : i = 0 ∨ s.lru_n_bytes i + req.obj_size ≤ mx i) : Loose n mx (insert_at s req i) := by
  obtain ⟨k, hk⟩ := h
  refine ⟨max k (s.occupied_byte + req.obj_size), ?_⟩
  exact insert_at_steady (hk.enlarge (le_max_left _ _)) hmiss hsize (le_max_right _ _) hi hfits

/-- An insertion may have to evict first, whatever room the caller has made. -/
theorem Loose.insert (hn : 0 < n) (h : Loose n mx s) (hmiss : size_of s req.obj_id = none) (hsize : 1 ≤ req.obj_size)
    (hsmall : req.obj_size ≤ mx 0) (hcs : req.obj_size ≤ s.cache_size) :
    ∃ t, SLRU_insert none s req = some t ∧ Loose n mx t ∧ t.cache_size = s.cache_size ∧
      Within (size_of t) (update (size_of s) req.obj_id (some req.obj_size)) ∧
      size_of t req.obj_id = some req.obj_size ∧ t.occupied_byte ≤ s.occupied_byte + req.obj_size := by
  have hmd := h.md
  obtain ⟨u, i, hchoose, hu, hi, hfits, hwithin, hucs, hocc⟩ : ∃ u i, choose_seg none s req = some (u, i) ∧ Loose n mx u ∧ i < n ∧
      (i = 0 ∨ u.lru_n_bytes i + req.obj_size ≤ mx i) ∧ Within (size_of u) (size_of s) ∧ u.cache_size = s.cache_size ∧
      u.occupied_byte ≤ s.occupied_byte := by
    have hseg : s.n_seg = n := by
      obtain ⟨k, hk⟩ := h
      exact hk.n_seg
    unfold choose_seg
    split
    next i hfind =>
      have hfits := List.find?_some hfind
      have hi := List.mem_range.1 (List.mem_of_find?_eq_some hfind)
      rw [hmd, h.max_eq, Int.add_zero, decide_eq_true_eq] at hfits
      exact ⟨s, i, rfl, h, hseg ▸ hi, .inr hfits, .refl _, rfl, le_rfl⟩
    next =>
      let I : State → Prop := fun w => Loose n mx w ∧ Within (size_of w) (size_of s) ∧ w.cache_size = s.cache_size ∧
        w.occupied_byte ≤ s.occupied_byte
      have hbody : ∀ w, I w → full_for req w = true →
          ∃ w', SLRU_evict none w = some w' ∧ I w' ∧ w'.hashtable.entries.length < w.hashtable.entries.length := by
        rintro w ⟨hw, hsub, hwcs, hwocc⟩ hfull
        have hwmd := hw.md
        simp only [full_for, decide_eq_true_eq] at hfull
        obtain ⟨w', hev, hw', hless, hcount⟩ := hw.evict (by omega)
        exact ⟨w', hev, ⟨hw', (evict_within hev).trans hsub, (evict_cache_size hev).trans hwcs, by omega⟩, hcount⟩
      obtain ⟨u, hloop, ⟨hu, hsub, hucs, hocc⟩, -⟩ := whileLoop_total I (fun w => w.hashtable.entries.length) hbody _ s
        ⟨h, .refl _, rfl, le_rfl⟩ le_rfl
      exact ⟨u, 0, by rw [hloop]; rfl, hu, hn, .inl rfl, hsub, hucs, hocc⟩
  have hout : req.obj_id ∉ u.hashtable := lookup_eq_none.1 (map_eq_none_iff.1 (hwithin.eq_none hmiss))
  have hnew : size_of (Slru.insert_at u req i) = update (size_of u) req.obj_id (some req.obj_size) := by
    funext x
    unfold size_of Slru.insert_at
    rcases eq_or_ne x req.obj_id with rfl | hne
    · rw [lookup_insert, update_self]
      rfl
    · rw [lookup_insert_ne hne, update_of_ne hne]
  refine ⟨_, by rw [SLRU_insert_eq, hchoose]; rfl, hu.insert_at hout ⟨hsize, hsmall⟩ hi hfits, hucs, ?_, ?_, ?_⟩
  · rw [hnew]
    intro x m hx
    rcases eq_or_ne x req.obj_id with rfl | hne
    · rwa [update_self] at hx ⊢
    · rw [update_of_ne hne] at hx ⊢
      exact hwithin x m hx
  · rw [hnew, update_self]
  · have humd := hu.md
    unfold Slru.insert_at
    dsimp only
    omega

end CacheSim.Slru
