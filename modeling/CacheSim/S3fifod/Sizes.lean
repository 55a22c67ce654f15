import CacheSim.S3fifod.Proofs

/-!
# The sizes of the queues of S3-FIFO-d

The guards of an adjustment compare with a hundredth of the cache, which is nothing when the cache holds
fewer than 100 objects: a queue of one object can lose its size.
-/

namespace CacheSim.S3fifod

open Lib

variable {σ : Type} {P : MainPolicy σ} {MInv : σ → Prop} {resident : σ → Finset ObjId} {freed : Nat → Int} {s : State σ}
  {req : Request}

/-! ## The start -/

theorem scale_spec {n : Int} (h : 10 ≤ n) : 1 ≤ scale n small_fifo_size_ratio ∧ scale n small_fifo_size_ratio < n := by
  obtain ⟨m, rfl⟩ : ∃ m : Nat, n = m := ⟨n.toNat, by omega⟩
  have hratio : 0 ≤ small_fifo_size_ratio := by norm_num [small_fifo_size_ratio]
  have hlow : (10 : ℚ) ≤ round53 m := by
    have hnine := round53_le_iff (n := m) (m := 9) (by decide)
    exact_mod_cast (show 10 ≤ round53 m by omega)
  have hhigh : (round53 m : ℚ) ≤ 2 * m := by exact_mod_cast round53_le m
  unfold scale
  rw [Int.cast_natCast, to_double_natCast]
  constructor
  · rw [Int.le_floor, Int.cast_one]
    apply one_le_to_double
    calc (1 : ℚ) ≤ 10 * small_fifo_size_ratio := by norm_num [small_fifo_size_ratio]
      _ ≤ round53 m * small_fifo_size_ratio := mul_le_mul_of_nonneg_right hlow hratio
  · -- a fifth of `m` is below the half of the power of two below `m`
    obtain ⟨k, hk⟩ : ∃ k, m.log2 = k + 1 := by
      have : 3 ≤ m.log2 := (Nat.le_log2 (by omega)).2 (by omega)
      exact ⟨m.log2 - 1, by omega⟩
    have hself : 2 ^ (k + 1) ≤ m := hk ▸ Nat.log2_self_le (by omega)
    have hlt : m < 2 ^ (k + 2) := by
      have := Nat.lt_log2_self (n := m)
      rwa [hk] at this
    have hlt' : (m : ℚ) < 4 * 2 ^ k := by
      rw [pow_add] at hlt
      exact_mod_cast (by omega : m < 4 * 2 ^ k)
    have hhalf : round53 m * small_fifo_size_ratio ≤ ((2 ^ k : Nat) : ℚ) := by
      calc round53 m * small_fifo_size_ratio ≤ 2 * m * small_fifo_size_ratio := mul_le_mul_of_nonneg_right hhigh hratio
        _ ≤ 2 * (4 * 2 ^ k) * small_fifo_size_ratio := by gcongr
        _ ≤ ((2 ^ k : Nat) : ℚ) := by
          push_cast
          unfold small_fifo_size_ratio
          linarith
    have hdouble : round53 (2 ^ k) = 2 ^ k := by simpa using round53_mul_pow (m := 1) (e := k) (by decide)
    have hle := to_double_le (mul_nonneg (Nat.cast_nonneg _) hratio) hhalf hdouble
    rw [Int.floor_lt]
    have hpow : (2 ^ k : Nat) < m := by
      omega
    exact hle.trans_lt (by exact_mod_cast hpow)

variable {main_init : Int → σ} {cache_size : Int}

theorem init_spec
    (hmain : ∀ k, MInv (main_init k) ∧ P.ops.cache_size (main_init k) = k ∧ resident (main_init k) = ∅)
    (h : 10 ≤ cache_size) (move_to_main_threshold : Int) :
    ∃ s, S3FIFOd_init main_init cache_size move_to_main_threshold = some s ∧ Inv P MInv resident s ∧ Sized P s ∧
      s.cache_size = cache_size := by
  obtain ⟨hlow, hhigh⟩ := scale_spec h
  obtain ⟨hinv, hsize, hnone⟩ := hmain (cache_size - scale cache_size small_fifo_size_ratio)
  have hvalid : ¬ (scale cache_size small_fifo_size_ratio ≤ 0 ∨ cache_size - scale cache_size small_fifo_size_ratio ≤ 0) := by
    omega
  have hempty : ∀ k : Int, objects { cache_size := k : Fifo Nat } = ∅ := fun _ => rfl
  refine ⟨_, by simp only [S3FIFOd_init, guard, if_pos hvalid]; rfl, ⟨Blocks.init _, hinv, Fifo.init_inv _ 0, Fifo.init_inv _ 0,
    Fifo.init_inv _ 0, ?_, ?_, ?_⟩, ⟨hlow, ?_, ?_⟩, rfl⟩
  · exact Finset.disjoint_empty_left _
  · rw [hempty, hnone]
    simp only [Finset.card_empty]
    omega
  · dsimp only
    omega
  · dsimp only
    omega
  · dsimp only
    omega

/-! ## An adjustment -/

def Starves (P : MainPolicy σ) (s : State σ) : Prop :=
  s.cache_size < 100 ∧ s.main_eviction.occupied_byte > 0 ∧ s.small_eviction_hit + s.main_eviction_hit > 100 ∧
    (P.ops.cache_size s.main_fifo = 1 ∧ s.small_eviction_hit > s.main_eviction_hit * 2 ∨
      s.small_fifo.cache_size = 1 ∧ s.main_eviction_hit > s.small_eviction_hit * 2)

theorem step_spec {n : Int} (h : 1 ≤ n) : -n < (max 1 (n.tdiv 1000)).bmod (2 ^ 32) ∧ (max 1 (n.tdiv 1000)).bmod (2 ^ 32) ≤ n ∧
    ((max 1 (n.tdiv 1000)).bmod (2 ^ 32) = n ↔ n = 1) := by
  rw [Int.tdiv_eq_ediv_of_nonneg (by omega)]
  have hpos : 1 ≤ max 1 (n / 1000) := le_max_left _ _
  have hle : max 1 (n / 1000) ≤ n := by omega
  have heq : max 1 (n / 1000) = n ↔ n = 1 := by omega
  generalize max 1 (n / 1000) = k at hpos hle heq ⊢
  rw [Int.bmod_def]
  split_ifs <;> omega

structure Adjusted (P : MainPolicy σ) (MInv : σ → Prop) (resident : σ → Finset ObjId) (s s' : State σ) : Prop where
  inv : Inv P MInv resident s'
  cache_size : s'.cache_size = s.cache_size
  sum : s'.small_fifo.cache_size + P.ops.cache_size s'.main_fifo = s.small_fifo.cache_size + P.ops.cache_size s.main_fifo
  small : objects s'.small_fifo = objects s.small_fifo
  main : resident s'.main_fifo = resident s.main_fifo
  freed_reads : s'.freed_reads = s.freed_reads

theorem Adjusted.refl (h : Inv P MInv resident s) : Adjusted P MInv resident s s := ⟨h, rfl, rfl, rfl, rfl, rfl⟩

variable {s' : State σ}

theorem Adjusted.set_hits (h : Adjusted P MInv resident s s') (small_hit main_hit : Int) :
    Adjusted P MInv resident s { s' with small_eviction_hit := small_hit, main_eviction_hit := main_hit } := by
  have hi := h.inv
  exact { h with inv := { hi with } }

theorem Adjusted.sized_iff (h : Adjusted P MInv resident s s') (hs : Sized P s) :
    Sized P s' ↔ 1 ≤ s'.small_fifo.cache_size ∧ 1 ≤ P.ops.cache_size s'.main_fifo := by
  constructor
  · intro hs'
    exact ⟨hs'.small, hs'.main⟩
  · rintro ⟨hsmall, hmain⟩
    refine ⟨hsmall, hmain, ?_⟩
    rw [h.sum, h.cache_size]
    exact hs.sum

section

variable (hP : MainContract P MInv resident)
include hP

section

variable (h : Inv P MInv resident s)
include h

theorem move_boundary_spec (step : Int)
    (hstep : step ≤ P.ops.cache_size s.main_fifo) :
    Adjusted P MInv resident s (move_boundary P s step) ∧
      (move_boundary P s step).small_fifo.cache_size = s.small_fifo.cache_size + step ∧
      P.ops.cache_size (move_boundary P s step).main_fifo = P.ops.cache_size s.main_fifo - step := by
  obtain ⟨hmain, hsize, hsame⟩ := hP.set_cache_size s.main_fifo (P.ops.cache_size s.main_fifo - step) h.main
  unfold move_boundary
  refine ⟨⟨⟨blocks_resize h.small _, hmain, ⟨h.ghost.occupied, h.ghost.n_obj⟩, h.small_eviction, h.main_eviction, ?_, ?_, ?_⟩, rfl, ?_,
    rfl, hsame, rfl⟩, rfl, hsize⟩
  · rw [hsame]
    exact h.disjoint
  · rw [hsame]
    exact h.room
  · rw [hsize]
    omega
  · dsimp only
    omega

theorem update_spec (hs : Sized P s) :
    Adjusted P MInv resident s (S3FIFOd_update_fifo_size P s) ∧ (Sized P (S3FIFOd_update_fifo_size P s) ↔ ¬ Starves P s) := by
  have hsized := hs
  obtain ⟨hsmall, hmain, hsum⟩ := hs
  obtain ⟨hlow, hhigh, hall⟩ := step_spec (n := min s.small_fifo.cache_size (P.ops.cache_size s.main_fifo)) (by omega)
  have hcent : s.cache_size.tdiv 100 = s.cache_size / 100 := Int.tdiv_eq_ediv_of_nonneg (by omega)
  unfold S3FIFOd_update_fifo_size Starves
  generalize (max 1 ((min s.small_fifo.cache_size (P.ops.cache_size s.main_fifo)).tdiv 1000)).bmod (2 ^ 32) = step at *
  by_cases hrecords : s.main_eviction.occupied_byte > 0
  · simp only [hrecords, hcent, if_true, and_true, true_and]
    split_ifs with hmany hgrow hguard hshrink hguard
    · obtain ⟨hmoved, hsmall', hmain'⟩ := move_boundary_spec hP h step (by omega)
      refine ⟨hmoved.set_hits _ _, ?_⟩
      rw [(hmoved.set_hits _ _).sized_iff hsized]
      rw [hsmall', hmain']
      omega
    · refine ⟨(Adjusted.refl h).set_hits _ _, ?_⟩
      rw [((Adjusted.refl h).set_hits _ _).sized_iff hsized]
      dsimp only
      omega
    · obtain ⟨hmoved, hsmall', hmain'⟩ := move_boundary_spec hP h (-step) (by omega)
      refine ⟨hmoved.set_hits _ _, ?_⟩
      rw [(hmoved.set_hits _ _).sized_iff hsized]
      rw [hsmall', hmain']
      omega
    · refine ⟨(Adjusted.refl h).set_hits _ _, ?_⟩
      rw [((Adjusted.refl h).set_hits _ _).sized_iff hsized]
      dsimp only
      omega
    · refine ⟨(Adjusted.refl h).set_hits _ _, ?_⟩
      rw [((Adjusted.refl h).set_hits _ _).sized_iff hsized]
      dsimp only
      omega
    · refine ⟨Adjusted.refl h, ?_⟩
      rw [(Adjusted.refl h).sized_iff hsized]
      omega
  · simp only [hrecords, if_false, and_false, false_and, not_false_iff, iff_true]
    refine ⟨(Adjusted.refl h).set_hits _ _, ?_⟩
    rw [((Adjusted.refl h).set_hits _ _).sized_iff hsized]
    exact ⟨hsmall, hmain⟩

/-! ## Runs -/

def call (P : MainPolicy σ) (freed : Nat → Int) (s : State σ) (req : Request) : Option (State σ) :=
  (S3FIFOd_get P freed s req).map (·.1)

def Fed (P : MainPolicy σ) (s : State σ) (req : Request) : Prop := req.obj_size = 1 ∧ ¬ Starves P s

def Serves (P : MainPolicy σ) (freed : Nat → Int) (s : State σ) (req : Request) : Prop :=
  ∃ s', call P freed s req = some s' ∧ Sized P s' ∧ S3FIFOd_probe P s' req.obj_id = true ∧
    S3FIFOd_get_occupied_byte P s' ≤ s'.cache_size ∧ s'.freed_reads = s.freed_reads

def Spares (P : MainPolicy σ) (s : State σ) (req : Request) : Prop :=
  S3FIFOd_probe P s req.obj_id = true ∨ S3FIFOd_get_occupied_byte P s < s.cache_size ∨ s.small_fifo.occupied_byte = 0

theorem probe_eq (id : ObjId) :
    S3FIFOd_probe P s id = true ↔ id ∈ cached resident s := by
  unfold S3FIFOd_probe cached
  rw [isSome_lookup_eq, hP.probe _ _ h.main, Bool.or_eq_true, decide_eq_true_iff, decide_eq_true_iff, Finset.mem_union]

end

end

theorem get_spec (freed : Nat → Int) (hP : MainContract P MInv resident) (h : Inv P MInv resident s)
    (hs : Sized P s) (hunit : req.obj_size = 1)
    (hfed : ¬ Starves P s) :
    ∃ s', call P freed s req = some s' ∧ Inv P MInv resident s' ∧ Sized P s' ∧ s'.cache_size = s.cache_size ∧
      req.obj_id ∈ cached resident s' ∧ (s'.freed_reads = s.freed_reads ↔ Spares P s req) := by
  obtain ⟨hadj, hsized⟩ := update_spec hP h hs
  obtain ⟨s', hit, hget, hinv, hframe, hmem, hreads⟩ := get_base_spec freed hP hadj.inv (hsized.2 hfed) hunit
  have hcached : cached resident (S3FIFOd_update_fifo_size P s) = cached resident s := by
    unfold cached
    rw [hadj.small, hadj.main]
  refine ⟨s', congrArg (Option.map Prod.fst) hget, hinv, hframe.sized (hsized.2 hfed),
    hframe.cache_size.trans hadj.cache_size, hmem, ?_⟩
  rw [hadj.freed_reads, hadj.cache_size, hadj.small, hcached] at hreads
  rw [hreads, Spares, probe_eq hP h, h.occupied hP, h.small_empty_iff]

theorem serves_iff (hP : MainContract P MInv resident) (h : Inv P MInv resident s) (hs : Sized P s) (hunit : req.obj_size = 1) :
    Serves P freed s req ↔ ¬ Starves P s ∧ Spares P s req := by
  constructor
  · rintro ⟨s', hcall, hs', -, -, hreads⟩
    have hfed : ¬ Starves P s := by
      obtain ⟨hadj, hsized⟩ := update_spec hP h hs
      obtain ⟨hsmall, hmain, hsum⟩ := hs
      obtain ⟨⟨_, hit⟩, hget, rfl⟩ := Option.map_eq_some_iff.1 hcall
      have hframe := get_base_frame hP hadj.inv (by rw [hadj.cache_size]; omega) hunit hget
      apply hsized.1
      refine ⟨?_, ?_, ?_⟩
      · rw [← hframe.small_size]
        exact hs'.small
      · rw [← hframe.main_size]
        exact hs'.main
      · rw [← hframe.small_size, ← hframe.main_size, ← hframe.cache_size]
        exact hs'.sum
    obtain ⟨t, hcall', -, -, -, -, hiff⟩ := get_spec freed hP h hs hunit hfed
    cases hcall'.symm.trans hcall
    exact ⟨hfed, hiff.1 hreads⟩
  · rintro ⟨hfed, hspares⟩
    obtain ⟨s', hcall, hinv, hsized, -, hmem, hiff⟩ := get_spec freed hP h hs hunit hfed
    refine ⟨s', hcall, hsized, (probe_eq hP hinv _).2 hmem, ?_, hiff.2 hspares⟩
    rw [hinv.occupied hP, hinv.card_cached]
    exact_mod_cast hinv.room

/-- The cache starts, its sizes add up while no get starves a queue, and the gets that it serves are those that spare
the small queue. -/
def ServesSparing (P : MainPolicy σ) (main_init : Int → σ) (cache_size move_to_main_threshold : Int) : Prop :=
  ∃ s₀, S3FIFOd_init main_init cache_size move_to_main_threshold = some s₀ ∧
    ∀ freed s, Reach (call P freed) (Fed P) s₀ s → Sized P s ∧ s.cache_size = cache_size ∧
      ∀ req, req.obj_size = 1 → (Serves P freed s req ↔ ¬ Starves P s ∧ Spares P s req)

theorem serves_sparing (hP : MainContract P MInv resident)
    (hmain : ∀ k, MInv (main_init k) ∧ P.ops.cache_size (main_init k) = k ∧ resident (main_init k) = ∅)
    (h : 10 ≤ cache_size) (move_to_main_threshold : Int) :
    ServesSparing P main_init cache_size move_to_main_threshold := by
  obtain ⟨s0, hinit, hinv, hsized, hsize⟩ := init_spec hmain h move_to_main_threshold
  refine ⟨s0, hinit, fun freed s hr => ?_⟩
  obtain ⟨hi, hs, hc⟩ := hr.inv (fun t => Inv P MInv resident t ∧ Sized P t ∧ t.cache_size = cache_size) (by
    rintro t req t' ⟨ht, hts, htc⟩ ⟨hunit, hfed⟩ hcall
    obtain ⟨u, hu, hi, hs, hc, -⟩ := get_spec freed hP ht hts hunit hfed
    cases hu.symm.trans hcall
    exact ⟨hi, hs, hc.trans htc⟩) ⟨hinv, hsized, hsize⟩
  exact ⟨hs, hc, fun req hunit => serves_iff hP hi hs hunit⟩

/-- With FIFO, LRU or Clock as its main cache, and objects without metadata. -/
theorem S3FIFOd_serves_iff (cache_size move_to_main_threshold : Int) (h : 10 ≤ cache_size) :
    ServesSparing fifo (fun size => { cache_size := size }) cache_size move_to_main_threshold ∧
      ServesSparing lru (fun size => { cache_size := size }) cache_size move_to_main_threshold ∧
      ∀ init_freq n_bit_counter, ServesSparing clock (Clock.Clock_init · init_freq n_bit_counter) cache_size
        move_to_main_threshold := by
  refine ⟨serves_sparing fifo_contract ?_ h _, serves_sparing lru_contract ?_ h _, fun init_freq n_bit_counter =>
    serves_sparing clock_contract ?_ h _⟩
  · exact fun k => ⟨Blocks.init k, rfl, rfl⟩
  · exact fun k => ⟨Blocks.init k, rfl, rfl⟩
  · exact fun k => ⟨Blocks.init k, rfl, rfl⟩

theorem S3FIFOd_serves_iff_ten : (10 : Int) ≤ 10 ∧ ServesSparing fifo (fun size => { cache_size := size }) 10 1 :=
  ⟨le_rfl, (S3FIFOd_serves_iff 10 1 le_rfl).1⟩

/-- Object 0 was read twice, which is enough for the main cache. Its frequency is read when it has been freed, and
where this yields 0 the object is gone. -/
theorem victim_read_when_freed :
    ∃ s₀ s, S3FIFOd_init (fun size => { cache_size := size }) 10 1 = some s₀ ∧
      runs (call fifo fun _ => 0) s₀ ((0 :: List.range 11).map fun id => { obj_id := id }) = some s ∧
      s.freed_reads = [(0, 1)] ∧ S3FIFOd_probe fifo s 0 = false := by
  simp only [exists_and_left]
  decide +kernel

end CacheSim.S3fifod
