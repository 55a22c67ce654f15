import Mathlib.Data.Int.Log
import Mathlib.Data.Rat.Floor

/-!
# Numbers in `double`

A `double` is a rational number of 53 significant bits; the range of its exponent plays no part.
-/

namespace CacheSim.Lib

open Nat Int

/-- To the nearest number of 53 significant bits, to the even one of two: an integer as a `double`. -/
def round53 (n : Nat) : Nat :=
  let e := n.log2 - 52
  let q := n / 2 ^ e
  let r := n % 2 ^ e
  if 2 ^ e < 2 * r ∨ 2 ^ e = 2 * r ∧ q % 2 = 1 then (q + 1) * 2 ^ e else q * 2 ^ e

theorem round53_le (n : Nat) : round53 n ≤ 2 * n := by
  unfold round53
  generalize n.log2 - 52 = e
  have hdiv := div_add_mod n (2 ^ e)
  rw [mul_comm] at hdiv
  dsimp only
  split_ifs with hup
  · rw [add_mul, one_mul]
    omega
  · omega

variable {n m : Nat} {q : ℚ}

theorem round53_of_log2 (h : n.log2 ≤ 52) : round53 n = n := by
  unfold round53
  rw [Nat.sub_eq_zero_of_le h]
  simp [mod_one]

theorem round53_of_le (h : n ≤ 2 ^ 53) : round53 n = n := by
  rcases h.lt_or_eq with hlt | rfl
  · rcases Nat.eq_zero_or_pos n with rfl | hpos
    · decide
    · have := (log2_lt hpos.ne').2 hlt
      exact round53_of_log2 (by omega)
  · decide

theorem pow_le_round53 {k : Nat} (h : 2 ^ k ≤ n) : 2 ^ k ≤ round53 n := by
  have hn : n ≠ 0 := by
    have := Nat.two_pow_pos k
    omega
  rcases le_or_gt n.log2 52 with hlog | hlog
  · rwa [round53_of_log2 hlog]
  have hk : k ≤ n.log2 := (le_log2 hn).2 h
  have hq : 2 ^ 52 ≤ n / 2 ^ (n.log2 - 52) := by
    rw [le_div_iff_mul_le (Nat.two_pow_pos _), ← pow_add]
    exact (congrArg (2 ^ ·) (by omega : 52 + (n.log2 - 52) = n.log2)).le.trans (log2_self_le hn)
  have hmul : 2 ^ k ≤ n / 2 ^ (n.log2 - 52) * 2 ^ (n.log2 - 52) :=
    calc 2 ^ k ≤ 2 ^ 52 * 2 ^ (n.log2 - 52) := by
          rw [← pow_add]
          exact Nat.pow_le_pow_right (by decide) (by omega)
      _ ≤ n / 2 ^ (n.log2 - 52) * 2 ^ (n.log2 - 52) := mul_le_mul_right _ hq
  unfold round53
  dsimp only
  split_ifs
  · rw [add_mul]
    omega
  · exact hmul

theorem le_round53 (h : 2 ^ 53 ≤ n) : 2 ^ 53 ≤ round53 n := pow_le_round53 h

theorem round53_le_iff (hm : m < 2 ^ 53) : round53 n ≤ m ↔ n ≤ m := by
  rcases le_or_gt n (2 ^ 53) with h | h
  · rw [round53_of_le h]
  · have := le_round53 h.le
    omega

theorem round53_lt (h : n < 2 ^ 64 - 2 ^ 10) : round53 n < 2 ^ 64 := by
  rcases Nat.eq_zero_or_pos n with rfl | hpos
  · decide
  have hlog : n.log2 < 64 := (log2_lt hpos.ne').2 (by omega)
  have hulp : 2 ^ (n.log2 - 52) ≤ 2 ^ 11 := Nat.pow_le_pow_right (by decide) (by omega)
  unfold round53
  generalize n.log2 - 52 = e at hulp ⊢
  have hdiv := div_add_mod n (2 ^ e)
  rw [mul_comm] at hdiv
  dsimp only
  split_ifs with hup
  · rw [add_mul, one_mul]
    omega
  · omega

theorem round53_of_dvd (h : 2 ^ (n.log2 - 52) ∣ n) : round53 n = n := by
  unfold round53
  dsimp only
  rw [mod_eq_zero_of_dvd h, if_neg (by omega), Nat.div_mul_cancel h]

theorem round53_mul_pow {e : Nat} (hm : m ≤ 2 ^ 53) : round53 (m * 2 ^ e) = m * 2 ^ e := by
  rcases Nat.eq_zero_or_pos m with rfl | hpos
  · rw [zero_mul]
    exact round53_of_le (by decide)
  rcases hm.lt_or_eq with hlt | rfl
  · apply round53_of_dvd
    have hlog : (m * 2 ^ e).log2 < 53 + e := by
      rw [log2_lt (mul_ne_zero hpos.ne' (Nat.two_pow_pos e).ne'), pow_add]
      exact mul_lt_mul_of_pos_right hlt (Nat.two_pow_pos e)
    exact (pow_dvd_pow 2 (by omega)).trans (dvd_mul_left _ _)
  · rw [← pow_add]
    apply round53_of_dvd
    rw [log2_two_pow]
    exact pow_dvd_pow 2 (by omega)

theorem round53_round53 (n : Nat) : round53 (round53 n) = round53 n := by
  have hq : n / 2 ^ (n.log2 - 52) < 2 ^ 53 := by
    rw [div_lt_iff_lt_mul (Nat.two_pow_pos _), ← pow_add]
    exact lt_log2_self.trans_le (Nat.pow_le_pow_right (by decide) (by omega))
  have hmul : ∃ m e, m ≤ 2 ^ 53 ∧ round53 n = m * 2 ^ e := by
    unfold round53
    dsimp only
    split_ifs
    · exact ⟨_, _, hq, rfl⟩
    · exact ⟨_, _, hq.le, rfl⟩
  obtain ⟨m, e, hm, heq⟩ := hmul
  rw [heq, round53_mul_pow hm]

/-! ## Rationals -/

def round_even (q : ℚ) : Int :=
  if q - ⌊q⌋ < 1 / 2 ∨ q - ⌊q⌋ = 1 / 2 ∧ ⌊q⌋ % 2 = 0 then ⌊q⌋ else ⌊q⌋ + 1

def ulp (q : ℚ) : ℚ := 2 ^ (Int.log 2 |q| - 52)

/-- To the nearest number of 53 significant bits: the result of an operation on `double`. -/
def to_double (q : ℚ) : ℚ := round_even (q / ulp q) * ulp q

theorem round_even_intCast (n : Int) : round_even n = n := by
  simp [round_even]

theorem ulp_ne_zero (q : ℚ) : ulp q ≠ 0 := by
  exact zpow_ne_zero _ two_ne_zero

theorem to_double_of_dvd {m : Int} (h : q = m * ulp q) : to_double q = q := by
  have hq : q / ulp q = m := by
    rw [div_eq_iff (ulp_ne_zero q)]
    exact h
  rw [to_double, hq, round_even_intCast]
  exact h.symm

theorem ulp_intCast (m : Int) : ulp m = 2 ^ ((m.natAbs.log2 : Int) - 52) := by
  rw [ulp, ← cast_abs, abs_eq_natAbs, cast_natCast, log_natCast, log2_eq_log_two]

theorem to_double_of_log2 {m : Int} (h : m.natAbs.log2 ≤ 52) : to_double m = m := by
  obtain ⟨k, hk⟩ : ∃ k, m.natAbs.log2 + k = 52 := ⟨52 - m.natAbs.log2, by omega⟩
  have hulp : ulp m = (2 ^ k)⁻¹ := by
    rw [ulp_intCast, show (m.natAbs.log2 : Int) - 52 = -(k : Int) by omega, zpow_neg, zpow_natCast]
  have hdvd : (m : ℚ) = (m * 2 ^ k : Int) * ulp m := by
    rw [hulp, Int.cast_mul, Int.cast_pow, Int.cast_ofNat, mul_assoc, mul_inv_cancel₀ (pow_ne_zero _ two_ne_zero), mul_one]
  exact to_double_of_dvd hdvd

theorem to_double_natCast (n : Nat) : to_double n = round53 n := by
  rcases le_or_gt n.log2 52 with h | h
  · rw [round53_of_log2 h]
    exact_mod_cast to_double_of_log2 (by simpa using h)
  obtain ⟨e, he⟩ : ∃ e, n.log2 = 52 + e := ⟨n.log2 - 52, by omega⟩
  have hpos : (0 : ℚ) < 2 ^ e := by positivity
  have hulp : ulp n = 2 ^ e := by
    have hint := ulp_intCast n
    rw [cast_natCast, natAbs_natCast, he, show ((52 + e : Nat) : Int) - 52 = e by omega, zpow_natCast] at hint
    exact hint
  have hdiv : (n : ℚ) = (n / 2 ^ e : Nat) * 2 ^ e + (n % 2 ^ e : Nat) := by
    exact_mod_cast (div_add_mod' n (2 ^ e)).symm
  have hfloor : ⌊(n : ℚ) / 2 ^ e⌋ = (n / 2 ^ e : Nat) := by
    have hcast : (n : ℚ) / 2 ^ e = (n : ℚ) / ((2 ^ e : Nat) : ℚ) := by push_cast; rfl
    rw [hcast, Rat.floor_natCast_div_natCast, natCast_ediv]
  have hfrac : (n : ℚ) / 2 ^ e - ⌊(n : ℚ) / 2 ^ e⌋ = (n % 2 ^ e : Nat) / 2 ^ e := by
    rw [hfloor, cast_natCast, eq_div_iff hpos.ne', sub_mul, div_mul_cancel₀ _ hpos.ne']
    linarith
  have hhalf : ((n % 2 ^ e : Nat) : ℚ) / 2 ^ e < 1 / 2 ↔ 2 * (n % 2 ^ e) < 2 ^ e := by
    rw [div_lt_div_iff₀ hpos two_pos, one_mul, mul_comm]
    exact_mod_cast Iff.rfl
  have hhalf' : ((n % 2 ^ e : Nat) : ℚ) / 2 ^ e = 1 / 2 ↔ 2 * (n % 2 ^ e) = 2 ^ e := by
    rw [div_eq_div_iff hpos.ne' two_ne_zero, one_mul, mul_comm]
    exact_mod_cast Iff.rfl
  have hround : round_even ((n : ℚ) / 2 ^ e) =
      if 2 ^ e < 2 * (n % 2 ^ e) ∨ 2 ^ e = 2 * (n % 2 ^ e) ∧ n / 2 ^ e % 2 = 1 then (n / 2 ^ e + 1 : Nat) else (n / 2 ^ e : Nat) := by
    rw [round_even, hfrac, hfloor]
    simp only [hhalf, hhalf']
    split_ifs <;> push_cast <;> omega
  rw [to_double, hulp, hround, round53, show n.log2 - 52 = e by omega]
  split_ifs <;> push_cast <;> rfl

theorem to_double_of_le (h : n ≤ 2 ^ 53) : to_double n = n := by
  rw [to_double_natCast, round53_of_le h]

theorem round_even_le {m : Int} (h : q ≤ m) : round_even q ≤ m := by
  have hfloor : ⌊q⌋ ≤ m := Int.cast_le.1 ((floor_le q).trans h)
  unfold round_even
  split_ifs with hdown
  · exact hfloor
  · rcases hfloor.lt_or_eq with hlt | heq
    · omega
    · -- `q` is the integer `m`, which is not rounded up
      have hq : q = m := le_antisymm h (heq ▸ floor_le q)
      rw [not_or] at hdown
      exact absurd (by rw [heq, hq]; norm_num) hdown.1

theorem le_round_even {m : Int} (h : m ≤ q) : m ≤ round_even q := by
  have hfloor : m ≤ ⌊q⌋ := le_floor.2 h
  unfold round_even
  split_ifs <;> omega

theorem one_le_to_double (h : 1 ≤ q) : 1 ≤ to_double q := by
  have hpos : 0 < q := zero_lt_one.trans_le h
  have hulp : (0 : ℚ) < ulp q := zpow_pos two_pos _
  -- the power of two below `q` has the unit of `q`
  have hpow : ((2 ^ 52 : Int) : ℚ) * ulp q = 2 ^ Int.log 2 q := by
    rw [ulp, abs_of_pos hpos, Int.cast_pow, Int.cast_ofNat, ← zpow_natCast, ← zpow_add₀ two_ne_zero]
    ring_nf
  have hdiv : ((2 ^ 52 : Int) : ℚ) ≤ q / ulp q := by
    rw [le_div_iff₀ hulp, hpow]
    exact zpow_log_le_self (by decide) hpos
  have hlog : 0 ≤ Int.log 2 q := by
    exact log_mono_right one_pos h
  calc (1 : ℚ) ≤ 2 ^ Int.log 2 q := one_le_zpow₀ one_le_two hlog
    _ = ((2 ^ 52 : Int) : ℚ) * ulp q := hpow.symm
    _ ≤ to_double q := mul_le_mul_of_nonneg_right (by exact_mod_cast le_round_even hdiv) hulp.le

theorem to_double_two_mul (q : ℚ) : to_double (2 * q) = 2 * to_double q := by
  rcases eq_or_ne q 0 with rfl | hq
  · simp [to_double, round_even]
  have hpos : 0 < |q| := abs_pos.2 hq
  have habs : |2 * q| = 2 * |q| := by rw [abs_mul, abs_two]
  have hlog : Int.log 2 (2 * |q|) = Int.log 2 |q| + 1 := by
    apply eq_of_forall_le_iff
    intro k
    have hk : k ≤ Int.log 2 |q| + 1 ↔ k - 1 ≤ Int.log 2 |q| := by omega
    rw [hk, ← zpow_le_iff_le_log (by decide) (by positivity), ← zpow_le_iff_le_log (by decide) hpos, Nat.cast_ofNat,
      zpow_sub_one₀ two_ne_zero, ← div_eq_mul_inv, div_le_iff₀' two_pos]
  have hulp : ulp (2 * q) = 2 * ulp q := by
    unfold ulp
    rw [habs, hlog, add_sub_right_comm, zpow_add_one₀ two_ne_zero, mul_comm]
  unfold to_double
  rw [hulp, mul_div_mul_left _ _ two_ne_zero]
  ring

theorem dvd_of_round53 (h : round53 n = n) : 2 ^ (n.log2 - 52) ∣ n := by
  unfold round53 at h
  dsimp only at h
  split_ifs at h
  · exact ⟨_, h.symm.trans (mul_comm _ _)⟩
  · exact ⟨_, h.symm.trans (mul_comm _ _)⟩

theorem to_double_le (hq : 0 ≤ q) (h : q ≤ n) (hn : round53 n = n) : to_double q ≤ n := by
  rcases Nat.eq_zero_or_pos n with rfl | hpos
  · have : q = 0 := le_antisymm (by simpa using h) hq
    rw [this]
    simp [to_double, round_even]
  have hulp : (0 : ℚ) < ulp q := zpow_pos two_pos _
  obtain ⟨m, hm⟩ : ∃ m : Int, (n : ℚ) = m * ulp q := by
    have hexp : Int.log 2 |q| ≤ (n.log2 : Int) := by
      rw [abs_of_nonneg hq, log2_eq_log_two, ← log_natCast (R := ℚ)]
      rcases hq.lt_or_eq with hlt | heq
      · exact log_mono_right hlt h
      · rw [← heq, Int.log_zero_right, log_natCast]
        exact natCast_nonneg _
    obtain ⟨c, hc⟩ := dvd_of_round53 hn
    obtain ⟨j, hj⟩ : ∃ j : Nat, (j : Int) = (n.log2 - 52 : Nat) - (Int.log 2 |q| - 52) :=
      ⟨((n.log2 - 52 : Nat) - (Int.log 2 |q| - 52)).toNat, by omega⟩
    refine ⟨c * 2 ^ j, ?_⟩
    have hpow : (2 : ℚ) ^ j * ulp q = 2 ^ (n.log2 - 52) := by
      rw [ulp, ← zpow_natCast, ← zpow_natCast, ← zpow_add₀ two_ne_zero, hj]
      congr 1
      omega
    calc (n : ℚ) = 2 ^ (n.log2 - 52) * c := by exact_mod_cast hc
      _ = (c * 2 ^ j : Int) * ulp q := by
        push_cast
        rw [mul_assoc, hpow, mul_comm]
  have hdiv : q / ulp q ≤ m := by
    rw [div_le_iff₀ hulp, ← hm]
    exact h
  calc to_double q = round_even (q / ulp q) * ulp q := rfl
    _ ≤ m * ulp q := mul_le_mul_of_nonneg_right (by exact_mod_cast round_even_le hdiv) hulp.le
    _ = n := hm.symm

theorem round53_mono (h : n ≤ m) : round53 n ≤ round53 m := by
  rcases Nat.eq_zero_or_pos m with rfl | hpos
  · rw [le_zero.1 h]
  rcases lt_or_ge n (2 ^ m.log2) with hlt | hge
  · -- a power of two lies between them
    have hdouble : round53 (2 ^ m.log2) = 2 ^ m.log2 := by
      apply round53_of_dvd
      rw [log2_two_pow]
      exact pow_dvd_pow 2 (sub_le _ _)
    have hle : to_double n ≤ (2 ^ m.log2 : Nat) := to_double_le n.cast_nonneg (by exact_mod_cast hlt.le) hdouble
    rw [to_double_natCast] at hle
    exact (by exact_mod_cast hle : round53 n ≤ 2 ^ m.log2).trans (pow_le_round53 (log2_self_le hpos.ne'))
  · have hn : n ≠ 0 := by
      have := Nat.two_pow_pos m.log2
      omega
    have hlog : n.log2 = m.log2 := by
      apply le_antisymm
      · rw [le_log2 hpos.ne']
        exact (log2_self_le hn).trans h
      · exact (le_log2 hn).2 hge
    unfold round53
    dsimp only
    rw [hlog]
    generalize 2 ^ (m.log2 - 52) = u
    have hdiv := Nat.div_le_div_right (c := u) h
    have hn := div_add_mod n u
    have hm := div_add_mod m u
    rcases hdiv.lt_or_eq with hq | hq
    · have hstep : (n / u + 1) * u ≤ m / u * u := mul_le_mul_right u hq
      have hstep' := add_mul (m / u) 1 u
      have hstep'' := add_mul (n / u) 1 u
      split_ifs <;> omega
    · have hstep := add_mul (m / u) 1 u
      rw [hq] at hn ⊢
      split_ifs <;> omega

theorem to_double_mono (h : n ≤ m) : to_double n ≤ to_double m := by
  rw [to_double_natCast, to_double_natCast]
  exact_mod_cast round53_mono h

end CacheSim.Lib
