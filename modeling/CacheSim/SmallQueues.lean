import CacheSim.S3fifo.Proofs
import CacheSim.Qdlp.Proofs
import CacheSim.Clock2QPlus

/-!
# What S3-FIFO admits

An object as large as the small queue passes the first check and fails the second one.
-/

namespace CacheSim.S3fifo

open Lib
open Option (bind_eq_some_iff map_eq_some_iff or_eq_none_iff)

variable {allows : Int → Request → Bool} {s s' : State} {req : Request}

def resident (s : State) (id : ObjId) : Bool := (S3FIFO_probe s id).isSome

def size_of (s : State) (x : ObjId) : Option Int := (S3FIFO_probe s x).map (·.obj_size)

theorem resident_eq (s : State) (id : ObjId) : resident s id = (size_of s id).isSome := Option.isSome_map.symm

theorem Inv.stock (h : Inv s) : Stock (size_of s) s.S3FIFO_get_occupied_byte := by
  have hboth : size_of s = both s.small_fifo.size_of s.main_fifo.size_of := by
    funext x
    exact Option.map_or
  rw [hboth]
  apply Stock.both (Fifo.Plain.stock ⟨h.small, h.small_md⟩) (Fifo.Plain.stock ⟨h.main, h.main_md⟩)
  exact fun x => (h.apart x).imp Fifo.size_of_none.2 Fifo.size_of_none.2

theorem Evicts.within (h : Evicts s s') : Within (size_of s') (size_of s) := by
  intro x n hx
  obtain ⟨o', ho', rfl⟩ := map_eq_some_iff.1 hx
  obtain ⟨o, ho, hsize⟩ := h.resident x o' ho'
  exact map_eq_some_iff.2 ⟨o, ho, hsize⟩

def Takes (req : Request) (s : State) : Prop := s.hit_on_ghost = true ∨ req.obj_size < s.small_fifo.cache_size

theorem insert_refused (h : ¬ Takes req s) : S3FIFO_insert s req = s := by
  unfold Takes at h
  push Not at h
  unfold S3FIFO_insert
  rw [if_neg h.1, if_pos h.2]

theorem insert_taken (h : Takes req s) : resident (S3FIFO_insert s req) req.obj_id = true := by
  unfold S3FIFO_insert resident S3FIFO_probe
  split_ifs with hghost hlarge
  · simp [Fifo.lookup_FIFO_insert]
  · exact absurd (h.resolve_left hghost) (by omega)
  · simp [Fifo.lookup_FIFO_insert]
  · simp [Fifo.lookup_FIFO_insert]

theorem insert_to_ghost_flag (h : insert_to_ghost s req = some s') : s'.hit_on_ghost = s.hit_on_ghost := by
  unfold insert_to_ghost at h
  cases hg : s.ghost_fifo with
  | none =>
    rw [hg] at h
    cases h
    rfl
  | some g =>
    rw [hg] at h
    obtain ⟨r, -, rfl⟩ := map_eq_some_iff.1 h
    rfl

theorem loop_flag {cond : State × Bool → Bool} {step : State × Bool → Option (State × Bool)} {fuel : Nat}
    (hstep : ∀ w w', step w = some w' → w'.1.hit_on_ghost = w.1.hit_on_ghost)
    (h : (whileLoop cond step fuel (s, false)).map (·.1) = some s') : s'.hit_on_ghost = s.hit_on_ghost := by
  obtain ⟨w, hloop, rfl⟩ := map_eq_some_iff.1 h
  exact (whileLoop_inv (fun w => w.1.hit_on_ghost = s.hit_on_ghost) (fun w w' hw _ hw' => (hstep w w' hw').trans hw) _ _ _ rfl
    hloop).1

theorem evict_flag (h : S3FIFO_evict s = some s') : s'.hit_on_ghost = s.hit_on_ghost := by
  unfold S3FIFO_evict at h
  dsimp only at h
  split_ifs at h
  all_goals
    refine loop_flag (s := { s with has_evicted := true }) (fun w w' hw => ?_) h
    obtain ⟨e, -, hw⟩ := bind_eq_some_iff.1 hw
  · dsimp only at hw
    split_ifs at hw <;> cases hw <;> rfl
  · split_ifs at hw
    · cases hw
      rfl
    · obtain ⟨t, ht, hw⟩ := bind_eq_some_iff.1 hw
      cases hw
      have hflag : t.hit_on_ghost = _ := insert_to_ghost_flag ht
      exact hflag

/-! ## Gets -/

structure Ready (req : Request) (s : State) : Prop where
  inv : Inv s
  sized : Sized s
  main_pos : 0 < s.main_fifo.cache_size
  missing : S3FIFO_probe s req.obj_id = none
  fits : req.obj_size ≤ s.cache_size

theorem admission (allows : Int → Request → Bool) (req : Request) :
    Admission (ops allows) req size_of (Ready req) (Takes req) (fun s => ¬ Takes req s) effort where
  stock s h := h.inv.stock
  missing s h := Option.map_eq_none_iff.2 h.missing
  evict s h hfull := by
    rw [CacheOps.full_for_iff] at hfull
    have hfits := h.fits
    have hne := count_pos_of_occupied h.inv (by simp only [ops] at hfull; omega)
    obtain ⟨s', hs', hev, hless⟩ := S3FIFO_evict_effort h.inv h.sized h.main_pos hne
    have htakes : Takes req s' ↔ Takes req s := by
      unfold Takes
      rw [evict_flag hs', hev.small_size]
    have hgone : S3FIFO_probe s' req.obj_id = none := by
      rcases hx : S3FIFO_probe s' req.obj_id with _ | o
      · rfl
      · obtain ⟨o', ho', -⟩ := hev.resident _ o hx
        cases h.missing.symm.trans ho'
    exact ⟨s', hs', ⟨hev.inv, hev.sized h.sized, hev.main_size ▸ h.main_pos, hgone, hev.cache_size ▸ hfits⟩, hless, hev.within.under,
      htakes, not_congr htakes, hev.cache_size, rfl⟩
  inserts s h htake _ := by
    refine ⟨_, rfl, ?_⟩
    rw [← resident_eq]
    exact insert_taken htake
  turns_away s _ hrefuse := ⟨s, congrArg some (insert_refused hrefuse), rfl⟩
  fails s _ htake hrefuse := absurd htake hrefuse

def Whole (allows : Int → Request → Bool) (s : State) (req : Request) : Prop :=
  S3FIFO_can_insert allows { s with n_req := s.n_req + 1 } req = false ∨ s.remembers req.obj_id = true ∨
    req.obj_size < s.small_fifo.cache_size ∨ s.S3FIFO_get_occupied_byte + req.obj_size ≤ s.cache_size

theorem find_missed (h : Inv s) (hmiss : S3FIFO_probe s req.obj_id = none) :
    ∃ s1, S3FIFO_find s req = (s1, false) ∧ s1.hit_on_ghost = s.remembers req.obj_id ∧ s1.n_req = s.n_req := by
  obtain ⟨hsmall, hmain⟩ := or_eq_none_iff.1 hmiss
  obtain ⟨ghost, hremove, -⟩ := remove_from_ghost_spec (s := { s with hit_on_ghost := false }) h.ghost req.obj_id
  have hfind := S3FIFO_find_eq hsmall hremove
  rw [hmain] at hfind
  exact ⟨_, hfind, rfl, rfl⟩

theorem all_or_nothing_iff (h : Fits s) (hmiss : resident s req.obj_id = false) :
    AllOrNothing resident (S3FIFO_get allows) s req ↔ Whole allows s req := by
  set c : State := { s with n_req := s.n_req + 1 }
  have hinv : Inv c :=
    { h.inv with }
  have hnone : S3FIFO_probe c req.obj_id = none := by
    exact Option.not_isSome_iff_eq_none.1 (Bool.eq_false_iff.1 hmiss)
  obtain ⟨s1, hfind, hghost, hn⟩ := find_missed hinv hnone
  obtain ⟨-, hinv1, hprobe, hunknown, hocc, hsizes⟩ := S3FIFO_find_spec hinv req
  rw [hfind] at hinv1 hprobe hunknown hocc hsizes
  simp only [sizes, Prod.mk.injEq] at hsizes
  obtain ⟨hcs, hss, hms⟩ := hsizes
  have hsame : size_of s1 = size_of s := funext hprobe
  have hcan : S3FIFO_can_insert allows s1 req = S3FIFO_can_insert allows c req := by
    unfold S3FIFO_can_insert
    rw [hn, hss, hcs]
  have hready : S3FIFO_can_insert allows s1 req = true → Ready req s1 := by
    intro hadm
    refine ⟨hinv1, fun x o ho => ?_, hms ▸ h.main_pos, ?_, ?_⟩
    · have hx := congrFun hsame x
      unfold size_of at hx
      rw [ho, Option.map_some, eq_comm, map_eq_some_iff] at hx
      obtain ⟨o', ho', hsize⟩ := hx
      exact hsize ▸ h.sized x o' ho'
    · obtain ⟨hsmall, hmain, -⟩ := not_knows_iff.1 (hunknown hnone)
      exact or_eq_none_iff.2 ⟨hsmall, hmain⟩
    · simp only [S3FIFO_can_insert, Bool.and_eq_true, Bool.not_eq_eq_eq_not, Bool.not_true, decide_eq_false_iff_not] at hadm
      omega
  have hroom : (ops allows).full_for req s1 = false ↔ s.S3FIFO_get_occupied_byte + req.obj_size ≤ s.cache_size := by
    rw [CacheOps.full_for_false_iff]
    simp only [ops]
    rw [hocc, hcs, Int.add_zero]
    rfl
  have hiff : AllOrNothing resident (S3FIFO_get allows) s req ↔
      S3FIFO_can_insert allows s1 req = false ∨ Takes req s1 ∨ (ops allows).full_for req s1 = false := by
    refine (admission allows req).all_or_nothing_iff_takes resident_eq (congrArg some hfind) (fun x => ?_) rfl hready le_rfl
    rw [resident_eq, resident_eq, hsame]
  rw [hiff, hcan, hroom]
  unfold Whole Takes
  rw [hghost, hss, or_assoc]
  rfl

end CacheSim.S3fifo

/-!
## Policies with a small queue

S3-FIFO, quick demotion and Clock2Q+ ask whether an object is larger than the small queue before they evict, and whether it
is as large as the queue when they insert.
-/

namespace CacheSim

open Lib

variable {σ : Type} {resident : σ → ObjId → Bool} {get : σ → Request → Option (σ × Bool)} {init : σ}

def Gotten (get : σ → Request → Option (σ × Bool)) (init s : σ) : Prop :=
  ∃ reqs : List Request, (∀ req ∈ reqs, 1 ≤ req.obj_size) ∧ runs (fun s req => (get s req).map (·.1)) init reqs = some s

/-- In every state that gets lead to, a get of a missing object is all or nothing if and only if `whole` says so. -/
def SettledBy (resident : σ → ObjId → Bool) (get : σ → Request → Option (σ × Bool)) (init : σ) (whole : σ → Request → Prop) : Prop :=
  ∀ s req, Gotten get init s → 1 ≤ req.obj_size → resident s req.obj_id = false → (AllOrNothing resident get s req ↔ whole s req)

theorem SettledBy.of_inv {whole : σ → Request → Prop} (I : σ → Prop) (hinit : I init)
    (hget : ∀ s req s' hit, I s → 1 ≤ req.obj_size → get s req = some (s', hit) → I s')
    (hiff : ∀ s req, I s → 1 ≤ req.obj_size → resident s req.obj_id = false → (AllOrNothing resident get s req ↔ whole s req)) :
    SettledBy resident get init whole := by
  rintro s req ⟨reqs, hreqs, hrun⟩ hsize hmiss
  refine hiff s req (runs_inv I (fun req => 1 ≤ req.obj_size) (fun t r t' ht hr hstep => ?_) reqs init s hreqs hinit hrun) hsize hmiss
  obtain ⟨⟨u, hit⟩, hu, rfl⟩ := Option.map_eq_some_iff.1 hstep
  exact hget t r u hit ht hr hu

/-- A get is all or nothing if the first check turns it away, if its object has a queue to go to, or if there is room for it
in any case. -/
theorem small_queues_all_or_nothing (allows : Int → Request → Bool) (cache_size small_size ghost_size threshold : Int) :
    (0 < small_size → small_size < cache_size →
      SettledBy S3fifo.resident (S3fifo.S3FIFO_get allows) (S3fifo.S3FIFO_init cache_size small_size ghost_size threshold)
        (S3fifo.Whole allows)) ∧
    (∀ consider_obj_metadata init, Qdlp.QDLP_init (fun k => Lru.LRU_init k consider_obj_metadata) cache_size small_size ghost_size
      threshold = some init →
      SettledBy (Qdlp.QDLP_probe S3fifod.lru) (Qdlp.QDLP_get S3fifod.lru allows) init (Qdlp.Whole S3fifod.lru allows)) ∧
    (∀ init, Qdlp.QDLP_init (fun k => { cache_size := k }) cache_size small_size ghost_size threshold = some init →
      SettledBy (Qdlp.QDLP_probe S3fifod.fifo) (Qdlp.QDLP_get S3fifod.fifo allows) init (Qdlp.Whole S3fifod.fifo allows)) ∧
    (∀ init_freq n_bit_counter init, Qdlp.QDLP_init (fun k => Clock.Clock_init k init_freq n_bit_counter) cache_size small_size
      ghost_size threshold = some init →
      SettledBy (Qdlp.QDLP_probe S3fifod.clock) (Qdlp.QDLP_get S3fifod.clock allows) init (Qdlp.Whole S3fifod.clock allows)) ∧
    (∀ corr_window_size, 0 ≤ small_size → small_size ≤ cache_size →
      SettledBy Clock2QPlus.resident Clock2QPlus.Clock2QPlus_get
        (Clock2QPlus.Clock2QPlus_init cache_size small_size ghost_size threshold corr_window_size) Clock2QPlus.Whole) := by
  have hqdlp : ∀ {τ : Type} {P : S3fifod.MainPolicy τ} {MInv : τ → Prop} {msize : τ → ObjId → Option Int} {md : Int}
      {main_init : Int → τ} {init : Qdlp.State τ}, Qdlp.Holds P MInv msize md →
        (∀ k, MInv (main_init k) ∧ P.ops.cache_size (main_init k) = k ∧
        P.ops.get_occupied_byte (main_init k) = 0 ∧ msize (main_init k) = fun _ => none) →
      Qdlp.QDLP_init main_init cache_size small_size ghost_size threshold = some init →
      SettledBy (Qdlp.QDLP_probe P) (Qdlp.QDLP_get P allows) init (Qdlp.Whole P allows) := by
    intro τ P MInv msize md main_init init hP hmain hinit
    exact .of_inv (Qdlp.Inv P MInv msize) (Qdlp.init_inv hmain hinit)
      (fun s req s' hit hs hsize hget => Qdlp.get_inv hP hs hsize hget)
      fun s req hs hsize hmiss => Qdlp.all_or_nothing_iff hP hs hsize hmiss
  refine ⟨fun hsmall hmain => ?_, fun consider_obj_metadata init hinit => ?_, fun init hinit => ?_,
    fun init_freq n init hinit => ?_,
fun corr_window_size hfifo hmain => ?_⟩
  · refine .of_inv S3fifo.Fits (S3fifo.S3FIFO_init_fits _ _ hsmall (by omega)) (fun s req s' hit hs hsize hget => ?_)
      fun s req hs _ hmiss => S3fifo.all_or_nothing_iff hs hmiss
    obtain ⟨t, hit', ht, hfits, -⟩ := S3fifo.S3FIFO_get_spec allows hs hsize
    cases ht.symm.trans hget
    exact hfits
  · have hmd : (0 : Int) ≤ if consider_obj_metadata then 16 else 0 := by split_ifs <;> decide
    exact hqdlp (Qdlp.lru_holds hmd) (fun k => ⟨.init k _, rfl, rfl, rfl⟩) hinit
  · exact hqdlp Qdlp.fifo_holds (fun k => ⟨.init k 0, rfl, rfl, rfl⟩) hinit
  · exact hqdlp Qdlp.clock_holds (fun k => ⟨.init k 0, rfl, rfl, rfl⟩) hinit
  · exact .of_inv Clock2QPlus.Fits (Clock2QPlus.init_fits hfifo hmain _ _ _)
      (fun s req s' hit hs hsize hget => Clock2QPlus.get_fits hs hsize hget)
      fun s req hs hsize hmiss => Clock2QPlus.all_or_nothing_iff hs hsize hmiss

instance {τ : Type} (P : S3fifod.MainPolicy τ) (allows : Int → Request → Bool) (s : Qdlp.State τ) (req : Request) :
    Decidable (Qdlp.Whole P allows s req) := inferInstanceAs (Decidable (_ ∨ _))

/-- The main cache is too small for object 1 and its metadata when 1 comes back from the ghost queue; 6 is new. -/
theorem small_queues_all_or_nothing_of_five : ∃ init s, Qdlp.QDLP_init (fun k => Lru.LRU_init k true) 40 20 36 1 = some init ∧
    runs (fun s req => (Qdlp.QDLP_get S3fifod.lru (fun _ _ => true) s req).map (·.1)) init
      ([1, 2, 3, 4, 5].map fun id => { obj_id := id, obj_size := 10 }) = some s ∧
    ¬ AllOrNothing (Qdlp.QDLP_probe S3fifod.lru) (Qdlp.QDLP_get S3fifod.lru fun _ _ => true) s { obj_id := 1, obj_size := 10 } ∧
    AllOrNothing (Qdlp.QDLP_probe S3fifod.lru) (Qdlp.QDLP_get S3fifod.lru fun _ _ => true) s { obj_id := 6, obj_size := 10 } := by
  obtain ⟨init, hinit, s, hs, hone, hsix, hnot, hwhole⟩ : ∃ init,
    Qdlp.QDLP_init (fun k => Lru.LRU_init k true) 40 20 36 1 = some init ∧
      ∃ s, runs (fun s req => (Qdlp.QDLP_get S3fifod.lru (fun _ _ => true) s req).map (·.1)) init
        ([1, 2, 3, 4, 5].map fun id => { obj_id := id, obj_size := 10 }) = some s ∧
          Qdlp.QDLP_probe S3fifod.lru s 1 = false ∧ Qdlp.QDLP_probe S3fifod.lru s 6 = false ∧
          ¬ Qdlp.Whole S3fifod.lru (fun _ _ => true) s { obj_id := 1, obj_size := 10 } ∧
          Qdlp.Whole S3fifod.lru (fun _ _ => true) s { obj_id := 6, obj_size := 10 } := by decide +kernel
  have hgotten : Gotten (Qdlp.QDLP_get S3fifod.lru fun _ _ => true) init s := ⟨_, by simp, hs⟩
  have hiff := (small_queues_all_or_nothing (fun _ _ => true) 40 20 36 1).2.1 true init hinit s
  exact ⟨init, s, hinit, hs, mt (hiff _ hgotten (by decide) hone).1 hnot, (hiff _ hgotten (by decide) hsix).2 hwhole⟩

theorem SettledBy.not_always {reqs : List Request} {req : Request} {x : ObjId} (hreqs : ∀ r ∈ reqs, 1 ≤ r.obj_size)
    (hsize : 1 ≤ req.obj_size) (h : ((runs (fun s req => (get s req).map (·.1)) init reqs).bind fun s => (get s req).map fun r =>
      (resident s req.obj_id, resident r.1 req.obj_id, resident s x, resident r.1 x)) = some (false, false, true, false)) :
    ¬ SettledBy resident get init fun _ _ => True := by
  intro hall
  obtain ⟨s, hrun, h⟩ := Option.bind_eq_some_iff.1 h
  obtain ⟨⟨s', hit⟩, hget, h⟩ := Option.map_eq_some_iff.1 h
  simp only [Prod.mk.injEq] at h
  obtain ⟨hmiss, hout, hx, hx'⟩ := h
  obtain ⟨s'', hit', hget', hwhich⟩ := (hall s req ⟨reqs, hreqs, hrun⟩ hsize hmiss).2 trivial
  cases hget.symm.trans hget'
  rcases hwhich with hin | hsame
  · cases hout.symm.trans hin
  · cases (hsame x ▸ hx').symm.trans hx

/-- Four objects of size 1, and then one as large as the small queue. -/
theorem not_small_queues_all_or_nothing :
    (¬ SettledBy S3fifo.resident (S3fifo.S3FIFO_get fun _ _ => true) (S3fifo.S3FIFO_init 4 2 3 1) fun _ _ => True) ∧
    (∃ init, Qdlp.QDLP_init (fun k => Lru.LRU_init k false) 4 2 3 1 = some init ∧
      ¬ SettledBy (Qdlp.QDLP_probe S3fifod.lru) (Qdlp.QDLP_get S3fifod.lru fun _ _ => true) init fun _ _ => True) ∧
    (∃ init, Qdlp.QDLP_init (fun k => { cache_size := k }) 4 2 3 1 = some init ∧
      ¬ SettledBy (Qdlp.QDLP_probe S3fifod.fifo) (Qdlp.QDLP_get S3fifod.fifo fun _ _ => true) init fun _ _ => True) ∧
    (∃ init, Qdlp.QDLP_init (fun k => Clock.Clock_init k 0 2) 4 2 3 1 = some init ∧
      ¬ SettledBy (Qdlp.QDLP_probe S3fifod.clock) (Qdlp.QDLP_get S3fifod.clock fun _ _ => true) init fun _ _ => True) ∧
    ¬ SettledBy Clock2QPlus.resident Clock2QPlus.Clock2QPlus_get (Clock2QPlus.Clock2QPlus_init 4 2 3 1 1) fun _ _ => True := by
  have hreqs : ∀ r ∈ [1, 2, 3, 4].map fun id => ({ obj_id := id } : Request), 1 ≤ r.obj_size := by simp
  have hsize : 1 ≤ ({ obj_id := 5, obj_size := 2 } : Request).obj_size := by decide
  refine ⟨?_, ⟨_, rfl, ?_⟩, ⟨_, rfl, ?_⟩, ⟨_, rfl, ?_⟩, ?_⟩
  all_goals exact SettledBy.not_always (x := 1) hreqs hsize (by decide +kernel)

end CacheSim
