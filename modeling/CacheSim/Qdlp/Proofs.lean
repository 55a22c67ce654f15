import CacheSim.Qdlp.Main
import CacheSim.Qdlp.Model

/-!
# What quick demotion admits

The queue and the main cache do not share an object.
-/

namespace CacheSim.Qdlp

open Lib Function Fifo
open S3fifod (MainPolicy main_get)

variable {σ : Type}

def size_of (msize : σ → ObjId → Option Int) (s : State σ) : ObjId → Option Int := both s.small_cache.size_of (msize s.main_cache)

structure Inv (P : MainPolicy σ) (MInv : σ → Prop) (msize : σ → ObjId → Option Int) (s : State σ) : Prop where
  small : s.small_cache.Plain
  main : MInv s.main_cache
  ghost : ∀ g ∈ s.ghost_cache, g.Inv
  apart : ∀ x, s.small_cache.size_of x = none ∨ msize s.main_cache x = none
  sized : ∀ x n, size_of msize s x = some n → 1 ≤ n
  main_fits : P.ops.get_occupied_byte s.main_cache ≤ P.ops.cache_size s.main_cache
  main_size : P.ops.cache_size s.main_cache ≤ s.cache_size

def fixed (P : MainPolicy σ) (s : State σ) : Int × Int × Int × Bool :=
  (s.cache_size, s.small_cache.cache_size, P.ops.cache_size s.main_cache, s.hit_on_ghost)

variable {P : MainPolicy σ} {MInv : σ → Prop} {msize : σ → ObjId → Option Int} {allows : Int → Request → Bool}
  {s s' t : State σ} {req : Request} {md : Int}

theorem resident_eq (hP : Holds P MInv msize md) (s : State σ) (id : ObjId) : QDLP_probe P s id = (size_of msize s id).isSome := by
  unfold QDLP_probe size_of both Fifo.size_of
  rw [Option.isSome_or, Option.isSome_map, hP.probe]

theorem remove_from_ghost_spec (h : ∀ g ∈ s.ghost_cache, g.Inv) (id : ObjId) :
    ∃ ghost, remove_from_ghost s id = ({ s with ghost_cache := ghost }, s.remembers id) ∧ ∀ g ∈ ghost, g.Inv := by
  unfold remove_from_ghost State.remembers
  cases hg : s.ghost_cache with
  | none =>
    refine ⟨none, ?_, by simp⟩
    cases s
    simp_all
  | some g =>
    refine ⟨some (g.FIFO_remove id).1, by simp [FIFO_remove_snd], ?_⟩
    simpa using (FIFO_remove_spec (h g hg) id).1

theorem insert_to_ghost_spec (h : ∀ g ∈ s.ghost_cache, g.Inv) (req : Request) :
    ∃ ghost, insert_to_ghost s req = some { s with ghost_cache := ghost } ∧ ∀ g ∈ ghost, g.Inv := by
  unfold insert_to_ghost
  cases hg : s.ghost_cache with
  | none =>
    refine ⟨none, ?_, by simp⟩
    cases s
    simp_all
  | some g =>
    obtain ⟨g', hit, hget, hinv, -⟩ := FIFO_get_spec (h g hg) req
    exact ⟨some g', by simp [hget], by simpa using hinv⟩

/-! ## An eviction -/

structure Evicts (P : MainPolicy σ) (MInv : σ → Prop) (msize : σ → ObjId → Option Int) (s s' : State σ) : Prop where
  inv : Inv P MInv msize s'
  under : Under (size_of msize s') (size_of msize s)
  fixed : fixed P s' = fixed P s
  effort : effort P s' < effort P s

section

variable (h : Inv P MInv msize s)
include h

theorem Evicts.of_parts (hsmall : t.small_cache.Plain) (hmain : MInv t.main_cache)
    (hghost : ∀ g ∈ t.ghost_cache, g.Inv) (hapart : ∀ x, t.small_cache.size_of x = none ∨ msize t.main_cache x = none)
    (hunder : Under (size_of msize t) (size_of msize s))
    (hfits : P.ops.get_occupied_byte t.main_cache ≤ P.ops.cache_size t.main_cache) (hfixed : Qdlp.fixed P t = Qdlp.fixed P s)
    (heffort : Qdlp.effort P t < Qdlp.effort P s) : Evicts P MInv msize s t := by
  have hcs := congrArg Prod.fst hfixed
  have hms := congrArg (·.2.2.1) hfixed
  dsimp only [Qdlp.fixed] at hcs hms
  refine ⟨⟨hsmall, hmain, hghost, hapart, fun x n hx => ?_, hfits, ?_⟩, hunder, hfixed, heffort⟩
  · obtain ⟨m, hm, hx⟩ := hunder x n hx
    exact (h.sized x m hx).trans hm
  · rw [hcs, hms]
    exact h.main_size

theorem Inv.small_sized {x : ObjId} {n : Int} (hx : s.small_cache.size_of x = some n) : 1 ≤ n := by
  refine h.sized x n ?_
  unfold size_of both
  rw [hx, Option.some_or]

theorem Inv.main_sized {x : ObjId} {n : Int} (hx : msize s.main_cache x = some n) : 1 ≤ n := by
  refine h.sized x n ?_
  unfold size_of both
  rw [(h.apart x).resolve_right (by simp [hx]), hx, Option.none_or]

end

section

variable (hP : Holds P MInv msize md)
include hP

section

variable (h : Inv P MInv msize s)
include h

theorem evict_spec (hocc : 0 < QDLP_get_occupied_byte P s) (req : Request) :
    ∃ s', QDLP_evict P s req = some s' ∧ Evicts P MInv msize s s' := by
  have hs := h.small.stock.nonneg fun _ _ => h.small_sized
  unfold QDLP_get_occupied_byte at hocc
  unfold QDLP_evict
  split_ifs with hempty
  · -- from the main cache
    obtain ⟨m', v, n, hev, hinv, hcs, hn, hv, hsize, hocc'⟩ := hP.evict s.main_cache req h.main (by omega)
    have hpos := h.main_sized hv
    have hfits := h.main_fits
    have hbound := h.main_size
    have hassert : P.ops.get_occupied_byte s.main_cache ≤ s.cache_size := by omega
    have hsub : Within (msize m') (msize s.main_cache) := by
      rw [hsize]
      exact .erase _ _
    refine ⟨{ s with main_cache := m' }, by simp [hev, hassert], .of_parts h h.small hinv h.ghost
      (Within.apart (.refl _) hsub h.apart) hsub.both_right.under ?_ ?_ ?_⟩
    · dsimp only
      omega
    · unfold fixed
      rw [hcs]
    · unfold effort
      dsimp only
      omega
  · obtain ⟨e, hlast, hlook⟩ := h.small.to_evict (by omega)
    have hsize := size_of_some hlook
    have hmain : msize s.main_cache e.1 = none := (h.apart e.1).resolve_left (by simp [hsize])
    have hplain := h.small.remove e.1
    have hlen := length_FIFO_remove hlook
    have hgone := size_of_remove s.small_cache e.1
    have hevict : s.small_cache.FIFO_evict = some (s.small_cache.FIFO_remove e.1).1 := by
      unfold Fifo.FIFO_evict Fifo.FIFO_remove
      rw [hlast, hlook]
      rfl
    simp only [hlast, Option.bind_eq_bind, Option.bind_some]
    split_ifs with hfreq
    · -- the object goes to the main cache, which may refuse it
      obtain ⟨m', hit, hget, hgot⟩ := main_get_spec hP (copy_cache_obj_to_request e) h.main hmain
        (fun _ _ => h.main_sized) h.main_fits
      have hn := hgot.n_obj
      refine ⟨{ s with main_cache := m', small_cache := (s.small_cache.FIFO_remove e.1).1 },
        by simp [hget, hevict], .of_parts h hplain hgot.inv h.ghost ?_ ?_ hgot.fits ?_ ?_⟩
      · rw [hgone]
        exact Within.apart (.refl _) hgot.within (apart_move _ h.apart)
      · unfold size_of
        rw [hgone]
        exact hgot.within.both_right.under.trans (both_move_under hsize (le_add_of_nonneg_right hP.md_nonneg))
      · unfold fixed
        rw [hgot.cache_size, FIFO_remove_cache_size]
      · unfold effort
        dsimp only
        omega
    · -- the object goes, and its id is remembered
      obtain ⟨ghost, hput, hghost⟩ := insert_to_ghost_spec h.ghost (copy_cache_obj_to_request e)
      refine ⟨{ s with ghost_cache := ghost, small_cache := (s.small_cache.FIFO_remove e.1).1 },
        by simp [hput, hevict], .of_parts h hplain h.main hghost ?_ ?_ h.main_fits ?_ ?_⟩
      · rw [hgone]
        exact Within.apart (.erase _ _) (.refl _) h.apart
      · unfold size_of
        rw [hgone, both_erase_left e.1 hmain]
        exact (Within.erase _ _).under
      · unfold fixed
        rw [FIFO_remove_cache_size]
      · unfold effort
        dsimp only
        omega

structure Keeps (P : MainPolicy σ) (MInv : σ → Prop) (msize : σ → ObjId → Option Int) (s s' : State σ) : Prop where
  inv : Inv P MInv msize s'
  size_of : size_of msize s' = size_of msize s
  cache_size : s'.cache_size = s.cache_size
  small_size : s'.small_cache.cache_size = s.small_cache.cache_size
  main_size : P.ops.cache_size s'.main_cache = P.ops.cache_size s.main_cache
  occupied : QDLP_get_occupied_byte P s' = QDLP_get_occupied_byte P s
  n_req : s'.n_req = s.n_req

theorem Keeps.of_parts (hsmall : t.small_cache.Plain) (hmain : MInv t.main_cache)
    (hghost : ∀ g ∈ t.ghost_cache, g.Inv) (hf : t.small_cache.size_of = s.small_cache.size_of)
    (hm : msize t.main_cache = msize s.main_cache) (hcs : t.cache_size = s.cache_size)
    (hss : t.small_cache.cache_size = s.small_cache.cache_size)
    (hms : P.ops.cache_size t.main_cache = P.ops.cache_size s.main_cache) (hn : t.n_req = s.n_req) : Keeps P MInv msize s t := by
  have hsame : Qdlp.size_of msize t = Qdlp.size_of msize s := by
    unfold Qdlp.size_of
    rw [hf, hm]
  have hfo := hsmall.stock.unique (hf ▸ h.small.stock)
  have hmo := (hP.stock _ hmain).unique (hm ▸ hP.stock _ h.main)
  refine ⟨⟨hsmall, hmain, hghost, ?_, ?_, ?_, ?_⟩, hsame, hcs, hss, hms, ?_, hn⟩
  · rw [hf, hm]
    exact h.apart
  · rw [hsame]
    exact h.sized
  · rw [hmo, hms]
    exact h.main_fits
  · rw [hms, hcs]
    exact h.main_size
  · unfold QDLP_get_occupied_byte
    rw [hfo, hmo]

theorem find_spec (req : Request) :
    ∃ s', QDLP_find P s req = some (s', (size_of msize s req.obj_id).isSome) ∧ Keeps P MInv msize s s' ∧
      (size_of msize s req.obj_id = none → s'.hit_on_ghost = s.remembers req.obj_id) := by
  unfold QDLP_find
  dsimp only
  cases hsmall : s.small_cache.q.lookup req.obj_id with
  | some obj =>
    have hin : size_of msize s req.obj_id = some obj.obj_size := by
      unfold size_of both
      rw [size_of_some hsmall, Option.some_or]
    rw [hin]
    exact ⟨_, rfl, .of_parts hP h (h.small.set_md hsmall _) h.main h.ghost (size_of_set_md hsmall _) rfl rfl rfl rfl rfl, nofun⟩
  | none =>
    obtain ⟨ghost, hremove, hghost⟩ := remove_from_ghost_spec (s := { s with hit_on_ghost := false }) h.ghost req.obj_id
    have hflag : (if s.remembers req.obj_id = true then ({ s with hit_on_ghost := true, ghost_cache := ghost } : State σ)
        else { s with hit_on_ghost := false, ghost_cache := ghost }) =
        { s with hit_on_ghost := s.remembers req.obj_id, ghost_cache := ghost } := by
      cases s.remembers req.obj_id <;> rfl
    have hin : size_of msize s req.obj_id = msize s.main_cache req.obj_id := by
      unfold size_of both
      rw [size_of_none.2 hsmall, Option.none_or]
    have hknown : ({ s with hit_on_ghost := false } : State σ).remembers req.obj_id = s.remembers req.obj_id := rfl
    obtain ⟨m', hm', hsame⟩ := hP.find s.main_cache req h.main
    rw [hremove, hin]
    rw [hknown, hflag]
    rw [hm']
    exact ⟨_, rfl, .of_parts hP h h.small hsame.inv hghost rfl hsame.size_of rfl rfl hsame.cache_size rfl, fun _ => rfl⟩

end

end

/-! ## Insertion -/

def Takes (P : MainPolicy σ) (md : Int) (req : Request) (s : State σ) : Prop :=
  if s.hit_on_ghost then req.obj_size + md ≤ P.ops.cache_size s.main_cache else req.obj_size < s.small_cache.cache_size

def Refuses (req : Request) (s : State σ) : Prop := s.hit_on_ghost = false ∧ s.small_cache.cache_size ≤ req.obj_size

structure Ready (P : MainPolicy σ) (MInv : σ → Prop) (msize : σ → ObjId → Option Int) (req : Request) (s : State σ) : Prop where
  inv : Inv P MInv msize s
  missing : size_of msize s req.obj_id = none
  size : 1 ≤ req.obj_size
  fits : req.obj_size ≤ s.cache_size

theorem Inv.of_within (h : Inv P MInv msize s)
    (hsmall : t.small_cache.Plain) (hmain : MInv t.main_cache) (hghost : t.ghost_cache = s.ghost_cache)
    (hapart : ∀ x, t.small_cache.size_of x = none ∨ msize t.main_cache x = none)
    {n : Int}
    (hn : 1 ≤ n) (hwithin : Within (size_of msize t) (update (size_of msize s) req.obj_id (some n)))
    (hfits : P.ops.get_occupied_byte t.main_cache ≤ P.ops.cache_size t.main_cache) (hcs : t.cache_size = s.cache_size)
    (hms : P.ops.cache_size t.main_cache = P.ops.cache_size s.main_cache) : Inv P MInv msize t := by
  refine ⟨hsmall, hmain, hghost ▸ h.ghost, hapart, fun x k hx => ?_, hfits, ?_⟩
  · have hx := hwithin x k hx
    rcases eq_or_ne x req.obj_id with rfl | hne
    · rw [update_self] at hx
      cases hx
      exact hn
    · rw [update_of_ne hne] at hx
      exact h.sized x k hx
  · rw [hms, hcs]
    exact h.main_size

theorem insert_from_ghost (hP : Holds P MInv msize md) (h : Ready P MInv msize req s) (hghost : s.hit_on_ghost = true) :
    ∃ m', QDLP_insert P s req = (if req.obj_size + md ≤ P.ops.cache_size s.main_cache then
        some { s with hit_on_ghost := false, main_cache := m' } else none) ∧ Got P MInv msize md req s.main_cache m' := by
  obtain ⟨-, hm⟩ := both_eq_none.1 h.missing
  obtain ⟨m', hit, hget, hgot⟩ := main_get_spec hP req h.inv.main hm (fun _ _ => h.inv.main_sized) h.inv.main_fits
  have hprobe := (hP.probe m' req.obj_id).trans hgot.taken
  refine ⟨m', ?_, hgot⟩
  unfold QDLP_insert
  simp only [hget, Option.bind_eq_bind, Option.bind_some, hprobe]
  split_ifs with hfits
  · simp [hfits]
  · simp [hfits]

theorem insert_taken (hP : Holds P MInv msize md) (h : Ready P MInv msize req s) (htake : Takes P md req s) :
    ∃ s', QDLP_insert P s req = some s' ∧ Inv P MInv msize s' ∧ s'.cache_size = s.cache_size ∧
      (size_of msize s' req.obj_id).isSome = true := by
  obtain ⟨hf, hm⟩ := both_eq_none.1 h.missing
  unfold Takes at htake
  split_ifs at htake with hghost
  · obtain ⟨m', hins, hgot⟩ := insert_from_ghost hP h hghost
    rw [if_pos htake] at hins
    have hwithin : Within (both s.small_cache.size_of (msize m'))
        (update (size_of msize s) req.obj_id (some (req.obj_size + md))) := by
      unfold size_of
      rw [← both_update_right _ hf]
      exact hgot.within.both_right
    have hcharge : 1 ≤ req.obj_size + md := le_add_of_le_of_nonneg h.size hP.md_nonneg
    refine ⟨_, hins, h.inv.of_within h.inv.small hgot.inv rfl (fun x => ?_) hcharge hwithin hgot.fits rfl hgot.cache_size, rfl, ?_⟩
    · rcases eq_or_ne x req.obj_id with rfl | hne
      · exact .inl hf
      · refine (h.inv.apart x).imp id fun hnone => hgot.within.eq_none ?_
        rw [update_of_ne hne]
        exact hnone
    · have htaken := hgot.taken
      unfold size_of both
      rw [hf, Option.none_or, htaken]
      exact decide_eq_true htake
  · have hnew : size_of msize { s with small_cache := s.small_cache.FIFO_insert req 0 } =
        update (size_of msize s) req.obj_id (some req.obj_size) := by
      unfold size_of
      rw [size_of_insert, both_insert_left]
    have hkept := Within.refl (size_of msize { s with small_cache := s.small_cache.FIFO_insert req 0 })
    nth_rewrite 2 [hnew] at hkept
    have hins : QDLP_insert P s req = some { s with small_cache := s.small_cache.FIFO_insert req 0 } := by
      unfold QDLP_insert
      rw [if_neg hghost, if_neg (by omega)]
    refine ⟨_, hins, h.inv.of_within (h.inv.small.insert 0 hf) h.inv.main rfl (fun x => ?_)
      h.size hkept h.inv.main_fits rfl rfl, rfl, ?_⟩
    · rw [size_of_insert]
      rcases eq_or_ne x req.obj_id with rfl | hne
      · exact .inr hm
      · rw [update_of_ne hne]
        exact h.inv.apart x
    · rw [hnew, update_self]
      rfl

theorem insert_refused (hrefuse : Refuses req s) : QDLP_insert P s req = some s := by
  unfold QDLP_insert
  rw [if_neg (Bool.eq_false_iff.1 hrefuse.1), if_pos hrefuse.2]

section

variable (hP : Holds P MInv msize md)
include hP

theorem insert_fails (h : Ready P MInv msize req s) (htake : ¬ Takes P md req s) (hrefuse : ¬ Refuses req s) :
    QDLP_insert P s req = none := by
  unfold Takes at htake
  split_ifs at htake with hghost
  · obtain ⟨m', hins, -⟩ := insert_from_ghost hP h hghost
    rw [hins, if_neg htake]
  · exact absurd ⟨Bool.eq_false_iff.2 hghost, not_lt.1 htake⟩ hrefuse

/-! ## Gets -/

theorem admission (allows : Int → Request → Bool) (req : Request) :
    Admission (ops P allows) req (size_of msize) (Ready P MInv msize req) (Takes P md req) (Refuses req) (effort P) where
  stock s h := h.inv.small.stock.both (hP.stock _ h.inv.main) h.inv.apart
  missing s h := h.missing
  evict s h hfull := by
    rw [CacheOps.full_for_iff] at hfull
    have hfits := h.fits
    have hocc : 0 < QDLP_get_occupied_byte P s := by
      simp only [ops] at hfull
      omega
    obtain ⟨s', hs', hev⟩ := evict_spec hP h.inv hocc req
    have hcs := congrArg Prod.fst hev.fixed
    have hss := congrArg (·.2.1) hev.fixed
    have hms := congrArg (·.2.2.1) hev.fixed
    have hflag := congrArg (·.2.2.2) hev.fixed
    dsimp only [fixed] at hcs hss hms hflag
    have htakes : Takes P md req s' ↔ Takes P md req s := by
      unfold Takes
      rw [hflag, hms, hss]
    have hrefuses : Refuses req s' ↔ Refuses req s := by
      unfold Refuses
      rw [hflag, hss]
    exact ⟨s', hs', ⟨hev.inv, hev.under.eq_none h.missing, h.size, hfits.trans_eq hcs.symm⟩, hev.effort, hev.under, htakes,
      hrefuses, hcs, rfl⟩
  inserts s h htake _ := by
    obtain ⟨s', hi, -, -, hin⟩ := insert_taken hP h htake
    exact ⟨s', hi, hin⟩
  turns_away s _ hrefuse := ⟨s, insert_refused hrefuse, rfl⟩
  fails s h htake hrefuse := insert_fails hP h htake hrefuse

theorem found_spec (allows : Int → Request → Bool) (h : Inv P MInv msize s) (hsize : 1 ≤ req.obj_size) :
    ∃ s1, (ops P allows).find ((ops P allows).count_req s) req = some (s1, (size_of msize s req.obj_id).isSome) ∧
      Keeps P MInv msize { s with n_req := s.n_req + 1 } s1 ∧
      (size_of msize s req.obj_id = none → s1.hit_on_ghost = s.remembers req.obj_id ∧
        (QDLP_can_insert allows s1 req = true → Ready P MInv msize req s1)) := by
  have hcount : Inv P MInv msize { s with n_req := s.n_req + 1 } :=
    { h with }
  obtain ⟨s1, hfind, hkeeps, hghost⟩ := find_spec hP hcount req
  refine ⟨s1, hfind, hkeeps, fun hmiss => ⟨hghost hmiss, fun hcan => ⟨hkeeps.inv, ?_, hsize, ?_⟩⟩⟩
  · rw [hkeeps.size_of]
    exact hmiss
  · simp only [QDLP_can_insert, Bool.and_eq_true, Bool.not_eq_eq_eq_not, Bool.not_true, decide_eq_false_iff_not] at hcan
    omega

theorem get_inv {hit : Bool} (h : Inv P MInv msize s) (hsize : 1 ≤ req.obj_size)
    (hget : QDLP_get P allows s req = some (s', hit)) : Inv P MInv msize s' := by
  obtain ⟨s1, hfind, hkeeps, hready⟩ := found_spec hP allows h hsize
  refine (admission hP allows req).get_keeps hfind hkeeps.inv rfl (fun hmiss => (hready (by simpa using hmiss)).2) le_rfl ?_ hget
  intro t u ht _ hu
  simp only [ops] at hu
  by_cases htake : Takes P md req t
  · obtain ⟨u', hi, hinv, -⟩ := insert_taken hP ht htake
    cases hi.symm.trans hu
    exact hinv
  · by_cases hrefuse : Refuses req t
    · cases (insert_refused hrefuse).symm.trans hu
      exact ht.inv
    · cases (insert_fails hP ht htake hrefuse).symm.trans hu

def Whole (P : MainPolicy σ) (allows : Int → Request → Bool) (s : State σ) (req : Request) : Prop :=
  QDLP_can_insert allows { s with n_req := s.n_req + 1 } req = false ∨
    if s.remembers req.obj_id then req.obj_size + P.ops.obj_md_size s.main_cache ≤ P.ops.cache_size s.main_cache
    else req.obj_size < s.small_cache.cache_size ∨ QDLP_get_occupied_byte P s + req.obj_size ≤ s.cache_size

theorem all_or_nothing_iff (h : Inv P MInv msize s) (hsize : 1 ≤ req.obj_size)
    (hmiss : QDLP_probe P s req.obj_id = false) :
    AllOrNothing (QDLP_probe P) (QDLP_get P allows) s req ↔ Whole P allows s req := by
  obtain ⟨s1, hfind, hkeeps, hready⟩ := found_spec hP allows h hsize
  have hnone : size_of msize s req.obj_id = none := by
    rw [resident_eq hP] at hmiss
    simpa using hmiss
  obtain ⟨hghost, hready⟩ := hready hnone
  rw [hnone] at hfind
  obtain ⟨-, hsame, hcs, hss, hms, hocc, hn⟩ := hkeeps
  have hcan : QDLP_can_insert allows s1 req = QDLP_can_insert allows { s with n_req := s.n_req + 1 } req := by
    unfold QDLP_can_insert
    rw [hss, hcs, hn]
  have hroom : (ops P allows).full_for req s1 = false ↔ QDLP_get_occupied_byte P s + req.obj_size ≤ s.cache_size := by
    rw [CacheOps.full_for_false_iff]
    simp only [ops]
    rw [hocc, hcs, Int.add_zero]
    rfl
  have hiff : AllOrNothing (QDLP_probe P) (QDLP_get P allows) s req ↔ QDLP_can_insert allows s1 req = false ∨
      Takes P md req s1 ∨ Refuses req s1 ∧ (ops P allows).full_for req s1 = false := by
    refine (admission hP allows req).all_or_nothing_iff (resident_eq hP) hfind (fun x => ?_) rfl hready le_rfl
    rw [resident_eq hP, resident_eq hP, hsame]
    rfl
  rw [hiff, hcan, hroom]
  unfold Whole Takes Refuses
  rw [hghost, hss, hms, hP.obj_md_size _ h.main]
  cases s.remembers req.obj_id with
  | true => simp only [if_true, Bool.true_eq_false, false_and, or_false]
  | false =>
    simp only [Bool.false_eq_true, if_false]
    refine or_congr_right ?_
    rcases lt_or_ge req.obj_size s.small_cache.cache_size with hless | hless
    · simp only [hless, true_or]
    · simp only [hless, true_and]

end

theorem init_inv {main_init : Int → σ} (hmain : ∀ k, MInv (main_init k) ∧
      P.ops.cache_size (main_init k) = k ∧ P.ops.get_occupied_byte (main_init k) = 0 ∧ msize (main_init k) = fun _ => none)
    {cache_size fifo_cache_size ghost_cache_size move_to_main_threshold : Int}
    (h : QDLP_init main_init cache_size fifo_cache_size ghost_cache_size move_to_main_threshold = some s) : Inv P MInv msize s := by
  obtain ⟨_, hvalid, hs⟩ := Option.bind_eq_some_iff.1 h
  cases hs
  have hsizes : ¬ (fifo_cache_size ≤ 0 ∨ cache_size - fifo_cache_size ≤ 0) := by
    by_contra hbad
    unfold guard at hvalid
    rw [if_neg (not_not.2 hbad)] at hvalid
    cases hvalid
  obtain ⟨hinv, hcs, hocc, hnone⟩ := hmain (cache_size - fifo_cache_size)
  have hempty : size_of msize ({
      cache_size := cache_size
      small_cache := { cache_size := fifo_cache_size }
      ghost_cache := if ghost_cache_size > 0 then some { cache_size := ghost_cache_size } else none
      main_cache := main_init (cache_size - fifo_cache_size)
      move_to_main_threshold := move_to_main_threshold } : State σ) = fun _ => none := by
    unfold size_of both
    rw [hnone]
    rfl
  refine ⟨.init _, hinv, ?_, fun _ => .inl rfl, fun x n hx => ?_, ?_, ?_⟩
  · intro g hg
    simp only [Option.mem_def, Option.ite_none_right_eq_some, Option.some.injEq] at hg
    rw [← hg.2]
    exact Fifo.init_inv _ _
  · rw [hempty] at hx
    cases hx
  · dsimp only
    omega
  · dsimp only
    omega

end CacheSim.Qdlp
