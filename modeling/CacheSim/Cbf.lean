import Mathlib.Data.UInt
import Mathlib.Algebra.BigOperators.Fin

/-!
# The counting filter (`minimalIncrementCBF.c`)

A key has one counter for each hash function, and the least of them is its estimate.
-/

namespace CacheSim.Cbf

def HASH_SEED0 : UInt64 := 0x12345678
def HASH_SEED1 : UInt64 := 0x12344321

def XXH_PRIME64_1 : UInt64 := 0x9E3779B185EBCA87
def XXH_PRIME64_2 : UInt64 := 0xC2B2AE3D27D4EB4F
def XXH_PRIME64_3 : UInt64 := 0x165667B19E3779F9
def XXH_PRIME64_4 : UInt64 := 0x85EBCA77C2B2AE63
def XXH_PRIME64_5 : UInt64 := 0x27D4EB2F165667C5

def XXH_rotl64 (x r : UInt64) : UInt64 := (x <<< r) ||| (x >>> (64 - r))

def XXH64_round (acc input : UInt64) : UInt64 := XXH_rotl64 (acc + input * XXH_PRIME64_2) 31 * XXH_PRIME64_1

def XXH64_avalanche (h64 : UInt64) : UInt64 :=
  let h64 := (h64 ^^^ (h64 >>> 33)) * XXH_PRIME64_2
  let h64 := (h64 ^^^ (h64 >>> 29)) * XXH_PRIME64_3
  h64 ^^^ (h64 >>> 32)

/-- `XXH64` of the eight bytes of an `obj_id_t`, which is what the callers hash. -/
def XXH64_obj_id (obj_id seed : UInt64) : UInt64 :=
  let h64 := seed + XXH_PRIME64_5 + 8
  let h64 := h64 ^^^ XXH64_round 0 obj_id
  XXH64_avalanche (XXH_rotl64 h64 27 * XXH_PRIME64_1 + XXH_PRIME64_4)

/-! ## The filter -/

def INT_MAX : Nat := 2 ^ 31 - 1
def UINT_MAX : UInt32 := 0xFFFFFFFF

/-- `struct minimalIncrementCBF`, with the fields that are read after its initialisation. -/
structure MinimalIncrementCBF (counter_num : Nat) where
  hashes : Nat
  bf : Fin counter_num → UInt32
  ready : Bool := false

/-- What becomes of the number of counters that the error rate asks for. -/
def enough_counters (hashes counter_num : Nat) : Nat := if counter_num < hashes then hashes * 2 else counter_num

instance {hashes counter_num : Nat} [NeZero hashes] : NeZero (enough_counters hashes counter_num) where
  out := by
    have hne := NeZero.ne hashes
    unfold enough_counters
    split_ifs <;> omega

/-- The numbers of hash functions and of counters are those that `minimalIncrementCBF_init` computes with doubles. -/
def minimalIncrementCBF_init (hashes counter_num : Nat) : MinimalIncrementCBF (enough_counters hashes counter_num) where
  hashes := hashes
  bf _ := 0
  ready := true

def to_int (n : UInt32) : Int := (n.toNat : Int).bmod (2 ^ 32)

-- `assert(CBF->counter_num != 0)`
variable {κ : Type} (XXH64 : κ → UInt64 → UInt64) {counter_num : Nat} [NeZero counter_num] (CBF : MinimalIncrementCBF counter_num)

def counters (buffer : κ) : List (Fin counter_num) :=
  let a := (XXH64 buffer HASH_SEED0).toUInt32
  let b := (XXH64 buffer HASH_SEED1).toUInt32
  (List.range CBF.hashes).map fun i => Fin.ofNat counter_num (a + UInt32.ofNat i * b).toNat

def min_count (buffer : κ) : UInt32 :=
  (counters XXH64 CBF buffer).foldl (fun min_count x => if CBF.bf x < min_count then CBF.bf x else min_count) UINT_MAX

/-- The comparison with `min_count` in the second loop guards a debug print only. -/
def minimalIncrementCBF_check_add (buffer : κ) (add : Bool) : MinimalIncrementCBF counter_num × Int :=
  if !CBF.ready then (CBF, -1)
  else
    let min_count := min_count XXH64 CBF buffer
    if add && min_count < UINT_MAX then
      ({ CBF with bf := (counters XXH64 CBF buffer).foldl (fun bf x => Function.update bf x (bf x + 1)) CBF.bf }, to_int (min_count + 1))
    else (CBF, to_int min_count)

def minimalIncrementCBF_estimate (buffer : κ) : MinimalIncrementCBF counter_num × Int :=
  minimalIncrementCBF_check_add XXH64 CBF buffer false

def minimalIncrementCBF_add (buffer : κ) : MinimalIncrementCBF counter_num × Int :=
  minimalIncrementCBF_check_add XXH64 CBF buffer true

omit [NeZero counter_num] in
/-- It returns 1 if there is no filter. -/
def minimalIncrementCBF_decay : MinimalIncrementCBF counter_num × Int :=
  if !CBF.ready then (CBF, 1) else ({ CBF with bf := fun i => CBF.bf i >>> 1 }, 0)

/-- The calls between two decays. -/
inductive Call (κ : Type) where
  | add (buffer : κ)
  | estimate (buffer : κ)
deriving DecidableEq

def call (CBF : MinimalIncrementCBF counter_num) : Call κ → MinimalIncrementCBF counter_num
  | .add buffer => (minimalIncrementCBF_add XXH64 CBF buffer).1
  | .estimate buffer => (minimalIncrementCBF_estimate XXH64 CBF buffer).1

/-!
## The estimates of the counting filter

An add raises every counter of the key, once for each hash function, so the estimate of the key is never too
low.
-/

open scoped BigOperators

variable {κ : Type} {XXH64 : κ → UInt64 → UInt64} {counter_num : Nat} [NeZero counter_num] {CBF : MinimalIncrementCBF counter_num}

/-! ## The least counter -/

theorem foldl_min_spec {n : Nat} (bf : Fin n → UInt32) (l : List (Fin n)) (m : UInt32) :
    let r := l.foldl (fun m x => if bf x < m then bf x else m) m
    r ≤ m ∧ (∀ x ∈ l, r ≤ bf x) ∧ (r = m ∨ ∃ x ∈ l, r = bf x) := by
  induction l generalizing m with
  | nil => simp
  | cons y l ih =>
    obtain ⟨hle, hall, hfrom⟩ := ih (if bf y < m then bf y else m)
    simp only [List.foldl_cons, List.mem_cons, forall_eq_or_imp, exists_eq_or_imp]
    split_ifs at hle hall hfrom ⊢ with hlt
    · exact ⟨UInt32.le_trans hle (UInt32.le_of_lt hlt), ⟨hle, hall⟩, .inr hfrom⟩
    · refine ⟨hle, ⟨UInt32.le_trans hle (UInt32.not_lt.1 hlt), hall⟩, ?_⟩
      tauto

variable {buffer : κ} {m : UInt32}

theorem min_count_le {x : Fin counter_num} (hx : x ∈ counters XXH64 CBF buffer) : min_count XXH64 CBF buffer ≤ CBF.bf x :=
  (foldl_min_spec CBF.bf _ UINT_MAX).2.1 x hx

theorem min_count_attained (XXH64 : κ → UInt64 → UInt64) (CBF : MinimalIncrementCBF counter_num) (buffer : κ) :
    min_count XXH64 CBF buffer = UINT_MAX ∨
    ∃ x ∈ counters XXH64 CBF buffer, min_count XXH64 CBF buffer = CBF.bf x :=
  (foldl_min_spec CBF.bf _ UINT_MAX).2.2

theorem min_count_nil (h : counters XXH64 CBF buffer = []) : min_count XXH64 CBF buffer = UINT_MAX := by
  simp [min_count, h]

theorem min_count_const (hne : counters XXH64 CBF buffer ≠ [])
    (h : ∀ x ∈ counters XXH64 CBF buffer, CBF.bf x = m) : min_count XXH64 CBF buffer = m := by
  obtain ⟨y, hy⟩ := List.exists_mem_of_ne_nil _ hne
  rcases min_count_attained XXH64 CBF buffer with hmax | ⟨x, hx, heq⟩
  · have hle := min_count_le hy
    rw [h y hy] at hle
    apply UInt32.le_antisymm hle
    rw [hmax, UInt32.le_iff_toNat_le]
    have hlt := m.toNat_lt
    simp only [UINT_MAX, UInt32.reduceToNat]
    omega
  · rw [heq, h x hx]

/-! ## The second loop -/

theorem toNat_succ (h : m.toNat + 1 < 2 ^ 32) : (m + 1).toNat = m.toNat + 1 := by
  exact Nat.mod_eq_of_lt h

theorem foldl_raise {n : Nat} (l : List (Fin n)) (bf : Fin n → UInt32) (x : Fin n) (h : (bf x).toNat + l.count x < 2 ^ 32) :
    (l.foldl (fun bf x => Function.update bf x (bf x + 1)) bf x).toNat = (bf x).toNat + l.count x := by
  induction l generalizing bf with
  | nil => simp
  | cons y l ih =>
    rw [List.foldl_cons]
    rcases eq_or_ne y x with rfl | hne
    · rw [List.count_cons_self] at h ⊢
      have hone : (bf y + 1).toNat = (bf y).toNat + 1 := toNat_succ (by omega)
      rw [ih _ (by simp; omega)]
      simp [hone]
      omega
    · rw [List.count_cons_of_ne hne] at h ⊢
      rw [ih _ (by simpa [Function.update_of_ne hne.symm] using h)]
      simp [Function.update_of_ne hne.symm]

def Fits (XXH64 : κ → UInt64 → UInt64) (CBF : MinimalIncrementCBF counter_num) : Call κ → Prop
  | .add buffer => ∀ x, (CBF.bf x).toNat + (counters XXH64 CBF buffer).count x < 2 ^ 32
  | .estimate _ => True

theorem min_count_lt (h : Fits XXH64 CBF (.add buffer)) (hne : counters XXH64 CBF buffer ≠ []) :
    min_count XXH64 CBF buffer < UINT_MAX := by
  obtain ⟨y, hy⟩ := List.exists_mem_of_ne_nil _ hne
  have hle := UInt32.le_iff_toNat_le.1 (min_count_le hy)
  have hfits := h y
  have hpos := List.count_pos_iff.2 hy
  rw [UInt32.lt_iff_toNat_lt]
  simp only [UINT_MAX, UInt32.reduceToNat]
  omega

section

variable (hready : CBF.ready = true)
include hready

theorem add_spec (h : Fits XXH64 CBF (.add buffer)) :
    let added := (minimalIncrementCBF_add XXH64 CBF buffer).1
    added.hashes = CBF.hashes ∧ added.ready = true ∧
      ∀ x, (added.bf x).toNat = (CBF.bf x).toNat + (counters XXH64 CBF buffer).count x := by
  unfold minimalIncrementCBF_add minimalIncrementCBF_check_add
  by_cases hnil : counters XXH64 CBF buffer = []
  · simp [hready, min_count_nil hnil, hnil]
  · simp only [hready, min_count_lt h hnil, Bool.not_true, Bool.true_and, decide_true, if_true, Bool.false_eq_true, if_false]
    exact ⟨trivial, trivial, fun x => foldl_raise _ _ _ (h x)⟩

theorem estimate_eq (buffer : κ) :
    minimalIncrementCBF_estimate XXH64 CBF buffer = (CBF, to_int (min_count XXH64 CBF buffer)) := by
  simp [minimalIncrementCBF_estimate, minimalIncrementCBF_check_add, hready]

theorem estimate_returns (buffer : κ) :
    (minimalIncrementCBF_estimate XXH64 CBF buffer).2 = to_int (min_count XXH64 CBF buffer) := by
  rw [estimate_eq hready]

end

theorem counters_congr {CBF' : MinimalIncrementCBF counter_num} (h : CBF'.hashes = CBF.hashes) (buffer : κ) :
    counters XXH64 CBF' buffer = counters XXH64 CBF buffer := by
  simp [counters, h]

/-! ## One add -/

def minimal (XXH64 : κ → UInt64 → UInt64) (CBF : MinimalIncrementCBF counter_num) (buffer : κ) : Finset (Fin counter_num) :=
  (counters XXH64 CBF buffer).toFinset.filter fun x => CBF.bf x = min_count XXH64 CBF buffer

/-- What the name of the filter promises of an add. -/
structure AddsMinimally (XXH64 : κ → UInt64 → UInt64) (CBF : MinimalIncrementCBF counter_num) (buffer : κ) : Prop where
  raised : ∀ x, (minimalIncrementCBF_add XXH64 CBF buffer).1.bf x ≠ CBF.bf x → x ∈ minimal XXH64 CBF buffer
  estimate : (minimalIncrementCBF_estimate XXH64 (minimalIncrementCBF_add XXH64 CBF buffer).1 buffer).2 =
    (minimalIncrementCBF_estimate XXH64 CBF buffer).2 + 1
  sum : ∑ x, ((minimalIncrementCBF_add XXH64 CBF buffer).1.bf x).toNat ≤
    ∑ x, (CBF.bf x).toNat + (minimal XXH64 CBF buffer).card

/-- The key has counters, they are distinct and equal, and the `int` that is returned can be raised. -/
structure Level (XXH64 : κ → UInt64 → UInt64) (CBF : MinimalIncrementCBF counter_num) (buffer : κ) : Prop where
  hashes : 0 < CBF.hashes
  distinct : (counters XXH64 CBF buffer).Nodup
  equal : ∀ x ∈ counters XXH64 CBF buffer, CBF.bf x = min_count XXH64 CBF buffer
  below : (min_count XXH64 CBF buffer).toNat ≠ INT_MAX

theorem counters_ne_nil : counters XXH64 CBF buffer ≠ [] ↔ 0 < CBF.hashes := by
  simp [counters]

theorem sum_added (hready : CBF.ready = true) (h : Fits XXH64 CBF (.add buffer)) :
    ∑ x, ((minimalIncrementCBF_add XXH64 CBF buffer).1.bf x).toNat =
      ∑ x, (CBF.bf x).toNat + (counters XXH64 CBF buffer).length := by
  obtain ⟨-, -, hraised⟩ := add_spec hready h
  have hlen : ∑ x, (counters XXH64 CBF buffer).count x = (counters XXH64 CBF buffer).length :=
    by simpa using Multiset.sum_count_eq_card (m := Multiset.ofList (counters XXH64 CBF buffer)) fun x _ => Finset.mem_univ x
  rw [Finset.sum_congr rfl fun x _ => hraised x, Finset.sum_add_distrib, hlen]

theorem to_int_succ (h : m.toNat + 1 < 2 ^ 32) : to_int (m + 1) = to_int m + 1 ↔ m.toNat ≠ INT_MAX := by
  unfold to_int INT_MAX
  rw [toNat_succ h]
  simp only [Int.bmod_def]
  omega

theorem le_to_int_iff {k : Nat} : (k : Int) ≤ to_int m ↔ m.toNat ≤ INT_MAX ∧ k ≤ m.toNat := by
  have hlt := m.toNat_lt
  unfold to_int INT_MAX
  simp only [Int.bmod_def]
  omega

theorem mem_minimal {x : Fin counter_num} :
    x ∈ minimal XXH64 CBF buffer ↔ x ∈ counters XXH64 CBF buffer ∧ CBF.bf x = min_count XXH64 CBF buffer := by
  simp [minimal]

/-- The sum grows by the number of hash functions, which is that of the least counters only if no two hash functions
name one counter and all counters are the least. -/
theorem length_le_card_minimal : (counters XXH64 CBF buffer).length ≤ (minimal XXH64 CBF buffer).card ↔
    (counters XXH64 CBF buffer).Nodup ∧ ∀ x ∈ counters XXH64 CBF buffer, CBF.bf x = min_count XXH64 CBF buffer := by
  have hcard := List.toFinset_card_le (counters XXH64 CBF buffer)
  have hfilter : (minimal XXH64 CBF buffer).card ≤ (counters XXH64 CBF buffer).toFinset.card := Finset.card_filter_le _ _
  constructor
  · intro hle
    have hnodup : (counters XXH64 CBF buffer).Nodup := by
      rw [← Multiset.coe_nodup, ← Multiset.toFinset_card_eq_card_iff_nodup]
      exact le_antisymm hcard (hle.trans hfilter)
    refine ⟨hnodup, fun x hx => ?_⟩
    have hall := Finset.card_filter_eq_iff.1 (le_antisymm hfilter (hcard.trans hle))
    exact hall x (by simpa using hx)
  · rintro ⟨hnodup, hequal⟩
    have hall : minimal XXH64 CBF buffer = (counters XXH64 CBF buffer).toFinset := by
      apply Finset.filter_true_of_mem
      simpa using hequal
    rw [hall, List.toFinset_card_of_nodup hnodup]

theorem addsMinimally_iff (hready : CBF.ready = true) (h : Fits XXH64 CBF (.add buffer)) :
    AddsMinimally XXH64 CBF buffer ↔ Level XXH64 CBF buffer := by
  obtain ⟨hhashes, hready', hraised⟩ := add_spec hready h
  have hsum := sum_added hready h
  set added := (minimalIncrementCBF_add XXH64 CBF buffer).1
  have hcounters : counters XXH64 added buffer = counters XXH64 CBF buffer := counters_congr hhashes buffer
  -- where the counters are distinct and the least, the estimate is the next number
  have hnext : counters XXH64 CBF buffer ≠ [] → (counters XXH64 CBF buffer).Nodup →
      (∀ x ∈ counters XXH64 CBF buffer, CBF.bf x = min_count XXH64 CBF buffer) →
      min_count XXH64 added buffer = min_count XXH64 CBF buffer + 1 ∧ (min_count XXH64 CBF buffer).toNat + 1 < 2 ^ 32 := by
    intro hne hnodup hequal
    have hlt := UInt32.lt_iff_toNat_lt.1 (min_count_lt h hne)
    simp only [UINT_MAX, UInt32.reduceToNat] at hlt
    have hbound : (min_count XXH64 CBF buffer).toNat + 1 < 2 ^ 32 := by omega
    refine ⟨min_count_const (hcounters ▸ hne) fun x hx => ?_, hbound⟩
    rw [hcounters] at hx
    apply UInt32.toNat_inj.1
    rw [hraised, hequal x hx, List.count_eq_one_of_mem hnodup hx, toNat_succ hbound]
  constructor
  · rintro ⟨-, hestimate, hle⟩
    rw [hsum] at hle
    obtain ⟨hnodup, hequal⟩ := length_le_card_minimal.1 (Nat.le_of_add_le_add_left hle)
    rw [estimate_returns hready', estimate_returns hready] at hestimate
    by_cases hnil : counters XXH64 CBF buffer = []
    · rw [min_count_nil hnil, min_count_nil (hcounters.trans hnil)] at hestimate
      omega
    · obtain ⟨hmin, hlt⟩ := hnext hnil hnodup hequal
      rw [hmin] at hestimate
      exact ⟨counters_ne_nil.1 hnil, hnodup, hequal, (to_int_succ hlt).1 hestimate⟩
  · rintro ⟨hhashes, hnodup, hequal, hbelow⟩
    obtain ⟨hmin, hlt⟩ := hnext (counters_ne_nil.2 hhashes) hnodup hequal
    constructor
    · intro x hx
      have hmem : x ∈ counters XXH64 CBF buffer := by
        by_contra hout
        apply hx
        apply UInt32.toNat_inj.1
        rw [hraised, List.count_eq_zero_of_not_mem hout, Nat.add_zero]
      exact mem_minimal.2 ⟨hmem, hequal x hmem⟩
    · rw [estimate_returns hready', estimate_returns hready, hmin]
      exact (to_int_succ hlt).2 hbelow
    · rw [hsum]
      exact Nat.add_le_add_left (length_le_card_minimal.2 ⟨hnodup, hequal⟩) _

/-! ## Between two decays -/

def AllFit (XXH64 : κ → UInt64 → UInt64) : MinimalIncrementCBF counter_num → List (Call κ) → Prop
  | _, [] => True
  | CBF, a :: calls => Fits XXH64 CBF a ∧ AllFit XXH64 (call XXH64 CBF a) calls

variable [DecidableEq κ] {calls : List (Call κ)}

theorem adds_le (hready : CBF.ready = true) (h : AllFit XXH64 CBF calls) (buffer : κ) :
    (calls.foldl (call XXH64) CBF).hashes = CBF.hashes ∧ (calls.foldl (call XXH64) CBF).ready = true ∧
      ∀ x ∈ counters XXH64 CBF buffer,
        (CBF.bf x).toNat + calls.count (.add buffer) ≤ ((calls.foldl (call XXH64) CBF).bf x).toNat := by
  induction calls generalizing CBF with
  | nil => exact ⟨rfl, hready, fun x _ => le_rfl⟩
  | cons a calls ih =>
    obtain ⟨hfits, hrest⟩ := h
    rw [List.foldl_cons]
    cases a with
    | add y =>
      obtain ⟨hhashes, hready', hraised⟩ := add_spec hready hfits
      obtain ⟨hhashes', hready'', hgrown⟩ := ih hready' hrest
      refine ⟨hhashes'.trans hhashes, hready'', fun x hx => ?_⟩
      have hle := hgrown x (counters_congr hhashes buffer ▸ hx)
      have hone : (if y = buffer then 1 else 0) ≤ (counters XXH64 CBF y).count x := by
        split_ifs with heq
        · exact List.count_pos_iff.2 (heq ▸ hx)
        · exact Nat.zero_le _
      rw [hraised] at hle
      simp only [List.count_cons, beq_iff_eq, Call.add.injEq]
      show _ ≤ ((calls.foldl (call XXH64) (minimalIncrementCBF_add XXH64 CBF y).1).bf x).toNat
      omega
    | estimate y =>
      have hsame : call XXH64 CBF (.estimate y) = CBF := by simp [call, estimate_eq hready]
      rw [hsame] at hrest ⊢
      simpa using ih hready hrest

theorem adds_le_estimate_iff (hready : CBF.ready = true) (h : AllFit XXH64 CBF calls) (buffer : κ) :
    (calls.count (.add buffer) : Int) ≤ (minimalIncrementCBF_estimate XXH64 (calls.foldl (call XXH64) CBF) buffer).2 ↔
      (min_count XXH64 (calls.foldl (call XXH64) CBF) buffer).toNat ≤ INT_MAX := by
  obtain ⟨hhashes, hready', hgrown⟩ := adds_le hready h buffer
  rw [estimate_returns hready', le_to_int_iff]
  refine ⟨And.left, fun hle => ⟨hle, ?_⟩⟩
  rcases min_count_attained XXH64 (calls.foldl (call XXH64) CBF) buffer with hmax | ⟨x, hx, heq⟩
  · rw [hmax] at hle
    simp [UINT_MAX, INT_MAX] at hle
  · rw [heq]
    exact (Nat.le_add_left _ _).trans (hgrown x (counters_congr hhashes buffer ▸ hx))

/-- In every run of adds and estimates from any filter, as long as no counter saturates: an add is minimal exactly where the
counters of the key are distinct and equal, the estimate of a key is at least the number of its adds, and a decay halves
each counter once. -/
theorem minimalIncrementCBF_counts (hready : CBF.ready = true) {calls : List (Call κ)} (h : AllFit XXH64 CBF calls) (buffer : κ) :
    (Fits XXH64 (calls.foldl (call XXH64) CBF) (.add buffer) →
      (AddsMinimally XXH64 (calls.foldl (call XXH64) CBF) buffer ↔ Level XXH64 (calls.foldl (call XXH64) CBF) buffer)) ∧
    ((calls.count (.add buffer) : Int) ≤ (minimalIncrementCBF_estimate XXH64 (calls.foldl (call XXH64) CBF) buffer).2 ↔
      (min_count XXH64 (calls.foldl (call XXH64) CBF) buffer).toNat ≤ INT_MAX) ∧
    ∀ x, ((minimalIncrementCBF_decay (calls.foldl (call XXH64) CBF)).1.bf x).toNat =
      ((calls.foldl (call XXH64) CBF).bf x).toNat / 2 := by
  obtain ⟨-, hready', -⟩ := adds_le hready h buffer
  refine ⟨addsMinimally_iff hready', adds_le_estimate_iff hready h buffer, fun x => ?_⟩
  simp [minimalIncrementCBF_decay, hready', Nat.shiftRight_eq_div_pow]

theorem minimalIncrementCBF_counts_of_two :
    let calls : List (Call UInt64) := [.add 2, .estimate 4, .add 2]
    let CBF := calls.foldl (call XXH64_obj_id) (minimalIncrementCBF_init 10 29)
    (Fits XXH64_obj_id CBF (.add 2) → (AddsMinimally XXH64_obj_id CBF 2 ↔ Level XXH64_obj_id CBF 2)) ∧
    ((calls.count (.add 2) : Int) ≤ (minimalIncrementCBF_estimate XXH64_obj_id CBF 2).2 ↔
      (min_count XXH64_obj_id CBF 2).toNat ≤ INT_MAX) ∧
    ∀ x, ((minimalIncrementCBF_decay CBF).1.bf x).toNat = (CBF.bf x).toNat / 2 := by
  have hfit : AllFit XXH64_obj_id (minimalIncrementCBF_init 10 29) [.add 2, .estimate 4, .add 2] := by
    refine ⟨?_, trivial, ?_, trivial⟩
    · show ∀ _, _
      decide +kernel
    · show ∀ _, _
      decide +kernel
  exact minimalIncrementCBF_counts rfl hfit 2

/-- The keys 2 and 4 share the counters 0, 1, 23 and 24. When 4 is added they are raised from 1, and the least of its
counters was 0. -/
theorem adds_not_minimal :
    let CBF := call XXH64_obj_id (minimalIncrementCBF_init 10 29) (.add 2)
    Fits XXH64_obj_id CBF (.add 4) ∧ ¬ AddsMinimally XXH64_obj_id CBF 4 := by
  refine ⟨?_, fun h => ?_⟩
  · show ∀ _, _
    decide +kernel
  · have hmin := h.raised 0 (by decide +kernel)
    revert hmin
    decide +kernel

end CacheSim.Cbf
