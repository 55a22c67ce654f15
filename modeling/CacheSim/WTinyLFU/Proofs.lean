import CacheSim.WTinyLFU.Main

/-!
# Evictions of W-TinyLFU make progress

Whatever the filter says, an eviction ends with an object less: the window's tail goes, or the main cache
loses an object for it.
-/

namespace CacheSim.WTinyLFU

open Lib Fifo
open S3fifod (MainPolicy lru scale)

variable {σ β : Type}

def size_of (msize : σ → ObjId → Option Int) (s : State σ β) : ObjId → Option Int := both s.LRU.size_of (msize s.main_cache)

structure Inv (MInv : σ → Prop) (msize : σ → ObjId → Option Int) (limit : σ → Int) (s : State σ β) : Prop where
  window : Sized s.LRU
  main : MInv s.main_cache
  apart : ∀ x, s.LRU.size_of x = none ∨ msize s.main_cache x = none
  admitted : ∀ x n, s.LRU.size_of x = some n → n ≤ limit s.main_cache

variable {P : MainPolicy σ} {F : Filter β} {MInv : σ → Prop} {msize : σ → ObjId → Option Int} {limit : σ → Int}
  {allows : Int → Request → Bool} {s s' t : State σ β} {req : Request}

structure Evicts (P : MainPolicy σ) (MInv : σ → Prop) (msize : σ → ObjId → Option Int) (limit : σ → Int)
  (s s' : State σ β) : Prop where
  inv : Inv MInv msize limit s'
  within : Within (size_of msize s') (size_of msize s)
  cache_size : s'.cache_size = s.cache_size
  limit : limit s'.main_cache = limit s.main_cache
  occupied : WTinyLFU_get_occupied_byte P s' ≤ WTinyLFU_get_occupied_byte P s

theorem Evicts.refl (h : Inv MInv msize limit s) : Evicts P MInv msize limit s s := ⟨h, .refl _, rfl, rfl, le_rfl⟩

theorem Evicts.trans (h1 : Evicts P MInv msize limit s s') (h2 : Evicts P MInv msize limit s' t) : Evicts P MInv msize limit s t :=
  ⟨h2.inv, h2.within.trans h1.within, h2.cache_size.trans h1.cache_size, h2.limit.trans h1.limit, h2.occupied.trans h1.occupied⟩

theorem Evicts.of_eq {u : State σ β} (h : Evicts P MInv msize limit s t) (hw : u.LRU = t.LRU) (hm : u.main_cache = t.main_cache)
    (hcs : u.cache_size = t.cache_size) : Evicts P MInv msize limit s u := by
  have hsize : size_of msize u = size_of msize t := by
    unfold size_of
    rw [hw, hm]
  refine ⟨⟨hw ▸ h.inv.window, hm ▸ h.inv.main, ?_, ?_⟩, ?_, hcs.trans h.cache_size, ?_, ?_⟩
  · rw [hw, hm]
    exact h.inv.apart
  · rw [hw, hm]
    exact h.inv.admitted
  · rw [hsize]
    exact h.within
  · rw [hm]
    exact h.limit
  · unfold WTinyLFU_get_occupied_byte
    rw [hw, hm]
    exact h.occupied

/-! ## The window's tail -/

theorem Evicts.of_less (h : Inv MInv msize limit s) {m : σ} (hless : Less P MInv msize limit s.main_cache m) :
    Evicts P MInv msize limit s { s with main_cache := m } := by
  refine ⟨⟨h.window, hless.inv, Within.apart (.refl _) hless.within h.apart, fun x n hx => ?_⟩, hless.within.both_right, rfl,
    hless.limit, ?_⟩
  · exact (h.admitted x n hx).trans_eq hless.limit.symm
  · have hocc := hless.occupied
    unfold WTinyLFU_get_occupied_byte
    dsimp only
    omega

variable {e : Sigma fun _ : ObjId => FifoObj Unit} {c k : Int}

theorem Evicts.of_leaving (h : Inv MInv msize limit s) (he : s.LRU.q.lookup e.1 = some e.2) :
    Evicts P MInv msize limit s { s with LRU := (s.LRU.FIFO_remove e.1).1 } := by
  have hsize := size_of_some he
  have hmain : msize s.main_cache e.1 = none := (h.apart e.1).resolve_left (by simp [hsize])
  refine ⟨⟨h.window.remove e.1, h.main, ?_, fun x n hx => ?_⟩, ?_, rfl, rfl, ?_⟩
  · rw [size_of_remove]
    exact Within.apart (.erase _ _) (.refl _) h.apart
  · rw [size_of_remove] at hx
    exact h.admitted x n (Within.erase _ _ x n hx)
  · unfold size_of
    rw [size_of_remove, both_erase_left e.1 hmain]
    exact .erase _ _
  · have hpos := (h.window.size_le he).1
    have hocc := h.window.plain.occupied_remove he
    unfold WTinyLFU_get_occupied_byte
    dsimp only
    omega

section

variable (hP : Serves P MInv msize limit)
include hP

theorem move_spec (h : Inv MInv msize limit s)
    (he : s.LRU.q.lookup e.1 = some e.2) :
    ∃ m, P.ops.insert s.main_cache (copy_cache_obj_to_request e) = some m ∧ 0 < P.ops.get_occupied_byte m ∧
      Evicts P MInv msize limit s { s with main_cache := m, LRU := (s.LRU.FIFO_remove e.1).1 } := by
  have hsize := size_of_some he
  have hmain : msize s.main_cache e.1 = none := (h.apart e.1).resolve_left (by simp [hsize])
  have hleft := h.window.plain.occupied_remove he
  obtain ⟨m, hi, hinv, hlimit, hwithin, hin, hocc⟩ := hP.insert s.main_cache (copy_cache_obj_to_request e) h.main hmain
    (h.window.size_le he).1 (h.admitted e.1 _ hsize)
  have hpos := hP.size_le m e.1 _ hinv hin
  refine ⟨m, hi, by omega, ⟨h.window.remove e.1, hinv, ?_, fun x n hx => ?_⟩, ?_, rfl, hlimit, ?_⟩
  · rw [size_of_remove]
    exact Within.apart (.refl _) hwithin (apart_move _ h.apart)
  · rw [size_of_remove] at hx
    rw [hlimit]
    exact h.admitted x n (Within.erase _ _ x n hx)
  · unfold size_of
    rw [size_of_remove, ← both_move hsize]
    exact hwithin.both_right
  · unfold WTinyLFU_get_occupied_byte
    dsimp only [copy_cache_obj_to_request] at hocc ⊢
    omega

theorem settle_victim_spec (F : Filter β) (h : Inv MInv msize limit s)
    (hlast : s.LRU.FIFO_to_evict = some e) (he : s.LRU.q.lookup e.1 = some e.2)
    (req : Request) :
    ∃ s' evicted, settle_victim P F s req e = some (s', evicted) ∧ Evicts P MInv msize limit s s' ∧
      s'.LRU.q.entries.length + 1 = s.LRU.q.entries.length ∧
      if evicted then WTinyLFU_get_occupied_byte P s' < WTinyLFU_get_occupied_byte P s
      else 0 < P.ops.get_occupied_byte s'.main_cache := by
  have hlen := length_FIFO_remove he
  have hpos := (h.window.size_le he).1
  have hleft := h.window.plain.occupied_remove he
  unfold settle_victim
  dsimp only
  split_ifs with hroom
  · obtain ⟨m, hi, hmain, hev⟩ := move_spec hP h he
    refine ⟨_, false, by rw [hi]; rfl, hev, hlen, hmain⟩
  · -- the main cache is full, so that it has a victim
    have hsize := h.admitted e.1 _ (size_of_some he)
    have hlimit := hP.limit_le s.main_cache
    rw [hP.obj_md_size _ h.main] at hroom
    have hocc : 0 < P.ops.get_occupied_byte s.main_cache := by
      dsimp only [copy_cache_obj_to_request] at hroom
      omega
    obtain ⟨v, hv⟩ := hP.to_evict s.main_cache h.main hocc
    simp only [hv, Option.bind_eq_bind, Option.bind_some]
    split_ifs with hfreq
    · -- an object of the main cache goes for it
      obtain ⟨m1, hev1, hless, hlt⟩ := hP.evict s.main_cache req h.main hocc
      have hmain := Evicts.of_less h hless
      obtain ⟨m2, hi, -, hmove⟩ := move_spec hP hmain.inv he
      refine ⟨_, true, by rw [hev1]; exact congrArg (Option.bind · _) hi, hmain.trans hmove, hlen, ?_⟩
      have hafter := hmove.occupied
      unfold WTinyLFU_get_occupied_byte at hafter ⊢
      dsimp only at hafter ⊢
      rw [if_pos rfl]
      omega
    · -- it goes itself
      obtain ⟨e', hlast', -, hevict⟩ := h.window.evict (by have := h.window.size_le he; omega)
      cases hlast.symm.trans hlast'
      have hevict' : s.LRU.LRU_evict = some (s.LRU.FIFO_remove e.1).1 := hevict
      refine ⟨_, true, by rw [hevict']; rfl, .of_leaving h he, hlen, ?_⟩
      unfold WTinyLFU_get_occupied_byte
      dsimp only
      rw [if_pos rfl]
      omega

theorem evict_step_spec (F : Filter β) (h : Inv MInv msize limit s)
    (hocc : 0 < WTinyLFU_get_occupied_byte P s) (req : Request) :
    ∃ s' evicted, evict_step P F req (s, false) = some (s', evicted) ∧ Evicts P MInv msize limit s s' ∧
      if evicted then WTinyLFU_get_occupied_byte P s' < WTinyLFU_get_occupied_byte P s
      else 0 < P.ops.get_occupied_byte s'.main_cache ∧ s'.LRU.q.entries.length < s.LRU.q.entries.length := by
  unfold evict_step
  dsimp only
  split_ifs with hwindow
  · obtain ⟨e, hlast, he, -⟩ := h.window.evict hwindow
    obtain ⟨s', evicted, hset, hev, hlen, hmore⟩ := settle_victim_spec hP F h hlast he req
    have hlast' : s.LRU.LRU_to_evict = some e := hlast
    refine ⟨{ s' with CBF := F.add s'.CBF e.1 }, evicted, by rw [hlast']; exact congrArg (Option.bind · _) hset,
      hev.of_eq rfl rfl rfl, ?_⟩
    cases evicted with
    | true => exact hmore
    | false => exact ⟨hmore, by dsimp only; omega⟩
  · -- the window is empty, and the main cache is not
    have hmain : 0 < P.ops.get_occupied_byte s.main_cache := by
      unfold WTinyLFU_get_occupied_byte at hocc
      omega
    obtain ⟨m, hev, hless, hlt⟩ := hP.evict s.main_cache req h.main hmain
    refine ⟨_, true, by rw [hev]; rfl, .of_less h hless, ?_⟩
    unfold WTinyLFU_get_occupied_byte
    dsimp only
    rw [if_pos rfl]
    omega

theorem evict_spec (F : Filter β) (h : Inv MInv msize limit s)
    (hocc : 0 < WTinyLFU_get_occupied_byte P s) (req : Request) :
    ∃ s', WTinyLFU_evict P F s req = some s' ∧ Evicts P MInv msize limit s s' ∧
      WTinyLFU_get_occupied_byte P s' < WTinyLFU_get_occupied_byte P s := by
  -- as long as nothing is evicted there is something left to evict
  let I : State σ β × Bool → Prop := fun w => Evicts P MInv msize limit s w.1 ∧
    if w.2 then WTinyLFU_get_occupied_byte P w.1 < WTinyLFU_get_occupied_byte P s else 0 < WTinyLFU_get_occupied_byte P w.1
  have hbody : ∀ w, I w → (!w.2) = true → ∃ w', evict_step P F req w = some w' ∧ I w' ∧
      (if w'.2 then 0 else w'.1.LRU.q.entries.length + 1) < if w.2 then 0 else w.1.LRU.q.entries.length + 1 := by
    rintro ⟨t, evicted⟩ ⟨hev, hleft⟩ hcond
    obtain rfl : evicted = false := by simpa using hcond
    obtain ⟨t', evicted', hstep, hev', hmore⟩ := evict_step_spec hP F hev.inv hleft req
    refine ⟨(t', evicted'), hstep, ⟨hev.trans hev', ?_⟩, ?_⟩
    · cases evicted' with
      | true => exact lt_of_lt_of_le hmore hev.occupied
      | false =>
        have hnonneg := hev'.inv.window.nonneg
        have hmain := hmore.1
        show 0 < t'.LRU.occupied_byte + P.ops.get_occupied_byte t'.main_cache
        omega
    · cases evicted' with
      | true => exact Nat.succ_pos _
      | false => exact Nat.succ_lt_succ hmore.2
  obtain ⟨⟨t, evicted⟩, hloop, ⟨hev, hmore⟩, hexit⟩ := whileLoop_total I
    (fun w => if w.2 then 0 else w.1.LRU.q.entries.length + 1) hbody (s.LRU.q.entries.length + 1) (s, false)
    ⟨.refl h, hocc⟩ le_rfl
  obtain rfl : evicted = true := by simpa using hexit
  refine ⟨t, ?_, hev, hmore⟩
  unfold WTinyLFU_evict
  rw [hloop]
  rfl

theorem evict_some (h : Inv MInv msize limit s) (hev : WTinyLFU_evict P F s req = some s') :
    0 < WTinyLFU_get_occupied_byte P s := by
  have hwindow := h.window.nonneg
  have hmain := hP.nonneg s.main_cache h.main
  unfold WTinyLFU_get_occupied_byte
  by_contra hempty
  obtain ⟨w, hloop, -⟩ := Option.map_eq_some_iff.1 hev
  simp only [whileLoop, Bool.not_false, if_true, Option.bind_eq_some_iff] at hloop
  obtain ⟨w', hstep, -⟩ := hloop
  unfold evict_step at hstep
  rw [if_neg (by dsimp only; omega)] at hstep
  obtain ⟨m, hm, -⟩ := Option.bind_eq_some_iff.1 hstep
  have hpos := hP.evict_some s.main_cache req m h.main hm
  omega

/-! ## Lookup and insertion -/

theorem find_spec (F : Filter β) (h : Inv MInv msize limit s) (req : Request) :
    ∃ s', WTinyLFU_find P F s req = some (s', (size_of msize s req.obj_id).isSome) ∧ Evicts P MInv msize limit s s' := by
  obtain ⟨hw, hsame, hocc, -, hhit⟩ := h.window.LRU_find req
  obtain ⟨m, hm, hless⟩ := hP.find s.main_cache req h.main
  have hmoved : Evicts P MInv msize limit s { s with LRU := (Lru.LRU_find s.LRU req true).1 } := by
    refine ⟨⟨hw, h.main, ?_, ?_⟩, ?_, rfl, rfl, ?_⟩
    · rw [hsame]
      exact h.apart
    · rw [hsame]
      exact h.admitted
    · unfold size_of
      rw [hsame]
      exact .refl _
    · unfold WTinyLFU_get_occupied_byte
      rw [hocc]
  have hev := hmoved.trans (.of_less hmoved.inv hless)
  have hbool : ((Lru.LRU_find s.LRU req true).2.isSome || (msize s.main_cache req.obj_id).isSome) =
      (size_of msize s req.obj_id).isSome := by
    unfold size_of both
    rw [hhit, Option.isSome_or]
  refine ⟨if (msize s.main_cache req.obj_id).isSome then
      count_hit F { s with LRU := (Lru.LRU_find s.LRU req true).1, main_cache := m } req.obj_id
    else { s with LRU := (Lru.LRU_find s.LRU req true).1, main_cache := m }, ?_, ?_⟩
  · rw [← hbool]
    exact congrArg (Option.bind · _) hm
  · split_ifs
    · refine hev.of_eq ?_ ?_ ?_ <;> unfold count_hit <;> dsimp only <;> split_ifs <;> rfl
    · exact hev

end

theorem insert_spec (h : Inv MInv msize limit s) (hmiss : size_of msize s req.obj_id = none) (hsize : 1 ≤ req.obj_size)
    (hlimit : req.obj_size ≤ limit s.main_cache) : Inv MInv msize limit (WTinyLFU_insert F s req) ∧
      WTinyLFU_get_occupied_byte P (WTinyLFU_insert F s req) = WTinyLFU_get_occupied_byte P s + req.obj_size := by
  obtain ⟨hw, hm⟩ := both_eq_none.1 hmiss
  have hnew : (s.LRU.LRU_insert req ()).size_of = Function.update s.LRU.size_of req.obj_id (some req.obj_size) :=
    size_of_insert s.LRU req ()
  have hocc : (s.LRU.LRU_insert req ()).occupied_byte = s.LRU.occupied_byte + req.obj_size := h.window.plain.occupied_insert req ()
  refine ⟨⟨h.window.insert () hw hsize, h.main, fun x => ?_, fun x n hx => ?_⟩, ?_⟩
  · rcases eq_or_ne x req.obj_id with rfl | hne
    · exact .inr hm
    · unfold WTinyLFU_insert
      rw [hnew, Function.update_of_ne hne]
      exact h.apart x
  · unfold WTinyLFU_insert at hx ⊢
    rw [hnew] at hx
    rcases eq_or_ne x req.obj_id with rfl | hne
    · rw [Function.update_self] at hx
      cases hx
      exact hlimit
    · rw [Function.update_of_ne hne] at hx
      exact h.admitted x n hx
  · unfold WTinyLFU_get_occupied_byte WTinyLFU_insert
    dsimp only
    omega

/-! ## Calls -/

structure Fits (P : MainPolicy σ) (MInv : σ → Prop) (msize : σ → ObjId → Option Int) (limit : σ → Int) (c : Int) (s : State σ β) :
    Prop where
  inv : Inv MInv msize limit s
  cache_size : s.cache_size = c
  fits : WTinyLFU_get_occupied_byte P s ≤ c

theorem Fits.evict (h : Fits P MInv msize limit c s) (hev : Evicts P MInv msize limit s s') : Fits P MInv msize limit c s' :=
  ⟨hev.inv, hev.cache_size.trans h.cache_size, hev.occupied.trans h.fits⟩

theorem Fits.count_req (h : Fits P MInv msize limit c s) : Fits P MInv msize limit c { s with n_req := s.n_req + 1 } :=
  { h with inv := { h.inv with } }

theorem get_spec (hP : Serves P MInv msize limit) (F : Filter β) (allows : Int → Request → Bool)
    (h : Fits P MInv msize limit c s) (hsize : 1 ≤ req.obj_size) :
    ∃ s' hit, WTinyLFU_get P F allows s req = some (s', hit) ∧ Fits P MInv msize limit c s' := by
  let Miss : State σ β → Prop := fun t => Fits P MInv msize limit c t ∧ size_of msize t req.obj_id = none
  apply CacheOps.cache_get_base_total (Fits P MInv msize limit c) Miss
    (fun t => Miss t ∧ req.obj_size ≤ c ∧ req.obj_size ≤ limit t.main_cache) (Fits P MInv msize limit c)
    (fun t => (WTinyLFU_get_occupied_byte P t).toNat) (fun _ _ => le_rfl) ?_ ?_ ?_ ?_ h
  · intro t ht
    obtain ⟨t', hfind, hev⟩ := find_spec hP F ht.count_req.inv req
    refine ⟨t', _, hfind, ?_⟩
    have hfits := ht.count_req.evict hev
    split_ifs with hhit
    · exact hfits
    · exact ⟨hfits, hev.within.eq_none (by simpa using hhit)⟩
  · rintro t ⟨ht, hmiss⟩
    show ∃ s' admitted, WTinyLFU_can_insert P allows t req = some (s', admitted) ∧ _
    unfold WTinyLFU_can_insert
    split_ifs with hfirst
    · rw [hP.can_insert t.main_cache req ht.inv.main]
      refine ⟨t, _, rfl, ?_⟩
      simp only [ht.cache_size, Bool.and_eq_true, Bool.not_eq_eq_eq_not, Bool.not_true, decide_eq_false_iff_not] at hfirst
      split_ifs with hlimit
      · exact ⟨⟨ht, hmiss⟩, by omega, of_decide_eq_true hlimit⟩
      · exact ht
    · exact ⟨t, false, rfl, ht⟩
  · rintro t ⟨⟨ht, hmiss⟩, hc, hlimit⟩ hfull
    rw [CacheOps.full_for_iff] at hfull
    simp only [ops] at hfull
    rw [ht.cache_size] at hfull
    obtain ⟨t', hevict, hev, hless⟩ := evict_spec hP F ht.inv (by omega) req
    exact ⟨t', hevict, ⟨⟨ht.evict hev, hev.within.eq_none hmiss⟩, hc, hlimit.trans_eq hev.limit.symm⟩, by omega⟩
  · rintro t ⟨⟨ht, hmiss⟩, hc, hlimit⟩ hroom
    rw [CacheOps.full_for_false_iff] at hroom
    simp only [ops] at hroom
    rw [ht.cache_size] at hroom
    obtain ⟨hinv, hocc⟩ := insert_spec (P := P) (F := F) ht.inv hmiss hsize hlimit
    exact ⟨_, rfl, hinv, ht.cache_size, by omega⟩

theorem call_fits (hP : Serves P MInv msize limit) (h : Fits P MInv msize limit c s) {a : Call} (ha : a.Sized)
    (hcall : call P F allows s a = some s') : Fits P MInv msize limit c s' := by
  cases a with
  | get req =>
    obtain ⟨t, hit, hget, hfits⟩ := get_spec hP F allows h ha
    obtain ⟨r, hr, rfl⟩ := Option.map_eq_some_iff.1 hcall
    cases hget.symm.trans hr
    exact hfits
  | evict req =>
    obtain ⟨t, hevict, hev, -⟩ := evict_spec hP F h.inv (evict_some hP h.inv hcall) req
    cases hevict.symm.trans hcall
    exact h.evict hev

/-! ## Runs -/

variable {main_init : Int → Option σ} {window_size : Int} {cache_size : Nat}

theorem init_fits {CBF : β}
    (hmain : ∀ m, main_init (cache_size - window_size) = some m →
      MInv m ∧ P.ops.get_occupied_byte m = 0 ∧ msize m = fun _ => none)
    (h : WTinyLFU_init main_init CBF cache_size window_size = some s) : Fits P MInv msize limit cache_size s := by
  obtain ⟨m, hm, hs⟩ := Option.bind_eq_some_iff.1 h
  cases hs
  obtain ⟨hinv, hocc, -⟩ := hmain m hm
  refine ⟨⟨⟨⟨init_inv _ _, rfl⟩, fun x n hx => ?_⟩, hinv, fun x => .inl rfl, fun x n hx => ?_⟩, rfl, ?_⟩
  · cases hx
  · cases hx
  · unfold WTinyLFU_get_occupied_byte
    dsimp only
    omega

theorem lru_init_spec {m : Lru Unit} (h : lru_init k = some m) :
    Sized m ∧ lru.ops.get_occupied_byte m = 0 ∧ m.size_of = fun _ => none := by
  cases h
  exact ⟨⟨⟨init_inv _ _, rfl⟩, fun x n hx => nomatch hx⟩, rfl, rfl⟩

theorem seg_size_ascending (h : 0 < seg_size k 0) : Slru.Ascending 2 (seg_size k) := by
  refine ⟨h, fun i hi => ?_⟩
  have hfour : to_double (to_double k * (4 * fifth)) = 4 * to_double (to_double k * fifth) := by
    rw [show to_double k * (4 * fifth) = 2 * (2 * (to_double k * fifth)) by ring, to_double_two_mul, to_double_two_mul]
    ring
  obtain rfl | rfl : i = 0 ∨ i = 1 := by omega
  · exact le_rfl
  · have hpos : 1 ≤ to_double (to_double k * fifth) := by
      have hfloor : (1 : Int) ≤ ⌊to_double (to_double k * fifth)⌋ := h
      exact_mod_cast Int.le_floor.1 hfloor
    have hle : ⌊to_double (to_double k * fifth)⌋ ≤ ⌊to_double (to_double k * (4 * fifth))⌋ := by
      apply Int.floor_le_floor
      linarith
    exact hle

theorem slru_init_spec {m : Slru.State} (h : slru_init k = some m) :
    Slru.Ascending 2 (seg_size k) ∧ Slru.Loose 2 (seg_size k) m ∧ slru.ops.get_occupied_byte m = 0 ∧
      Slru.size_of m = fun _ => none := by
  obtain ⟨_, hvalid, hm⟩ := Option.bind_eq_some_iff.1 h
  cases hm
  have hpos : 0 < seg_size k 0 ∧ 0 < seg_size k 1 := by
    by_contra hbad
    unfold guard at hvalid
    rw [if_neg hbad] at hvalid
    cases hvalid
  have hasc := seg_size_ascending hpos.1
  refine ⟨hasc, ⟨0, ?_⟩, rfl, rfl⟩
  exact {
    inv := (Slru.init_inv k false (some (seg_size k)) (by omega : 0 < 2)).of_eq rfl rfl rfl
    acc := Slru.init_accounted 0 false 2 (some (seg_size k))
    md := rfl
    cache_size := rfl
    n_seg := rfl
    max := rfl
    sizes := fun x o ho => nomatch ho
    fits := le_rfl
    segments := fun i _ hi => (Int.zero_le_ofNat 1).trans (hasc.pos.trans (hasc.le i hi)) }

def Progresses (P : MainPolicy σ) (F : Filter β) (allows : Int → Request → Bool) (init : State σ β) : Prop :=
  ∀ s, Reach (call P F allows) (fun _ c => c.Sized) init s →
    (∀ x, ¬ ((s.LRU.q.lookup x).isSome ∧ P.probe s.main_cache x)) ∧
    (∀ x req, WTinyLFU_probe P s x → ∃ s', WTinyLFU_evict P F s req = some s' ∧
      WTinyLFU_get_occupied_byte P s' < WTinyLFU_get_occupied_byte P s) ∧
    ∀ req, 1 ≤ req.obj_size → ∃ s' hit, WTinyLFU_get P F allows s req = some (s', hit) ∧
      WTinyLFU_get_occupied_byte P s' ≤ init.cache_size

theorem progresses (hP : Serves P MInv msize limit) (h : Fits P MInv msize limit s.cache_size s) : Progresses P F allows s := by
  intro t hreach
  have ht : Fits P MInv msize limit s.cache_size t := hreach.inv _ (fun u a u' hu ha hcall => call_fits hP hu ha hcall) h
  have hwindow : ∀ x, (t.LRU.q.lookup x).isSome = (t.LRU.size_of x).isSome := fun x => Option.isSome_map.symm
  refine ⟨fun x hboth => ?_, fun x req hx => ?_, fun req hsize => ?_⟩
  · rw [hwindow, hP.probe] at hboth
    rcases ht.inv.apart x with hnone | hnone <;> simp [hnone] at hboth
  · have hpos : 0 < WTinyLFU_get_occupied_byte P t := by
      have hw := ht.inv.window.nonneg
      have hm := hP.nonneg _ ht.inv.main
      unfold WTinyLFU_get_occupied_byte
      rcases Bool.or_eq_true_iff.1 hx with hx | hx
      · obtain ⟨o, ho⟩ := Option.isSome_iff_exists.1 hx
        have hle := ht.inv.window.size_le ho
        omega
      · rw [hP.probe] at hx
        obtain ⟨n, hn⟩ := Option.isSome_iff_exists.1 hx
        have hle := hP.size_le _ x n ht.inv.main hn
        omega
    obtain ⟨t', hevict, -, hless⟩ := evict_spec hP F ht.inv hpos req
    exact ⟨t', hevict, hless⟩
  · obtain ⟨t', hit, hget, hfits⟩ := get_spec hP F allows ht hsize
    exact ⟨t', hit, hget, hfits.fits⟩

theorem progresses_of_init (hP : Serves P MInv msize limit) {CBF : β}
    (hmain : ∀ m, main_init (cache_size - window_size) = some m →
      MInv m ∧ P.ops.get_occupied_byte m = 0 ∧ msize m = fun _ => none)
    (h : WTinyLFU_init main_init CBF cache_size window_size = some s) : Progresses P F allows s := by
  have hfits : Fits P MInv msize limit cache_size s := init_fits hmain h
  exact progresses hP (hfits.cache_size ▸ hfits)

/-- With LRU and with SLRU as the main cache. -/
theorem WTinyLFU_progress (F : Filter β) (CBF : β) (allows : Int → Request → Bool) (cache_size : Nat) (window_size : Int) :
    (∀ init, WTinyLFU_init lru_init CBF cache_size window_size = some init → Progresses lru F allows init) ∧
    ∀ init, WTinyLFU_init slru_init CBF cache_size window_size = some init → Progresses slru F allows init := by
  refine ⟨fun init hinit => ?_, fun init hinit => ?_⟩
  · exact progresses_of_init lru_serves (fun m => lru_init_spec) hinit
  · obtain ⟨m, hm, -⟩ := Option.bind_eq_some_iff.1 hinit
    have hasc := (slru_init_spec hm).1
    exact progresses_of_init (slru_serves (by omega) hasc) (fun m hm => (slru_init_spec hm).2) hinit

/-- A filter that keeps what it was given. -/
def listed : Filter (List ObjId) where
  add l id := id :: l
  decay l := l
  estimate l id := l.count id

theorem WTinyLFU_progress_of_four : ∃ init s s',
    WTinyLFU_init lru_init [] 3 1 = some init ∧
    runs (call lru listed fun _ _ => true) init ([1, 2, 3, 1, 4].map fun id => .get { obj_id := id }) = some s ∧
      WTinyLFU_probe lru s 4 ∧ WTinyLFU_evict lru listed s { obj_id := 4 } = some s' ∧
      WTinyLFU_get_occupied_byte lru s' < WTinyLFU_get_occupied_byte lru s := by
  obtain ⟨init, hinit, s, hs, hin⟩ : ∃ init, WTinyLFU_init lru_init [] 3 1 = some init ∧
      ∃ s, runs (call lru listed fun _ _ => true) init ([1, 2, 3, 1, 4].map fun id => .get { obj_id := id }) = some s ∧
        WTinyLFU_probe lru s 4 := by decide +kernel
  obtain ⟨-, hevict, -⟩ := (WTinyLFU_progress listed [] (fun _ _ => true) 3 1).1 init hinit s (.of_runs (by simp [Call.Sized]) hs)
  obtain ⟨s', hs', hless⟩ := hevict 4 { obj_id := 4 } hin
  exact ⟨init, s, s', hinit, hs, hin, hs', hless⟩

/-- 99 bytes are 19 and 79 in the main cache's segments. -/
example : (slru_init 99).map (fun s => (s.lru_max_n_bytes 0, s.lru_max_n_bytes 1)) = some (19, 79) := by decide +kernel

end CacheSim.WTinyLFU
