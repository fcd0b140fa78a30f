import KnownIssues.Digest.Md5
import Mathlib.Analysis.Complex.Basic
import Mathlib.Analysis.Complex.Trigonometric
import Mathlib.NumberTheory.Zsqrtd.GaussianInt

/-! # The constants of the steps are sines

Step `n` of a block, `n` from 1 to 64, adds the first 32 bits behind the point of `|sin n|`
(`getD_sines`).  The sine of `n` is the imaginary part of the power `exp I ^ n`, and for `exp I` twenty
terms of its series stand in (`norm_exp_I_sub_le`).

* `norm_pow_sub_pow_le`: on the unit circle an error grows no faster than the exponent.
* `abs_sin_sub_le`: so the powers of the twenty terms give each sine to 53 bits.  They are Gaussian
  integers over powers of `19!`, without any rounding.
* `sines_between`: what is left to see, the constants between bounds that are whole numbers. -/

namespace KnownIssues.Digest.Md5

open Complex Finset

/-- The first 32 bits behind the point of `|sin n|`, for an angle of `n` radians. -/
noncomputable def sineBits (n : ℕ) : ℕ :=
  ⌊2 ^ 32 * |Real.sin n|⌋₊

/-- The first twenty terms of the series of `exp I`, times `19!`. -/
def expTerms : GaussianInt :=
  ⟨65725128248453315, 102360822438075317⟩

theorem sum_series_exp_I :
    ∑ m ∈ range 20, I ^ m / (m.factorial : ℂ)
      = GaussianInt.toComplex expTerms / ((19).factorial : ℂ) := by
  rw [GaussianInt.toComplex_def, Complex.ext_iff]
  constructor <;> simp [sum_range_succ, pow_succ, Nat.factorial, expTerms] <;> norm_num

theorem norm_exp_I_sub_le :
    ‖exp I - GaussianInt.toComplex expTerms / ((19).factorial : ℂ)‖ ≤ 1 / 2 ^ 60 := by
  rw [← sum_series_exp_I]
  refine (exp_bound (by simp) (by decide)).trans ?_
  rw [norm_I, one_pow, one_mul]
  norm_num [Nat.factorial]

theorem norm_pow_sub_pow_le {z w : ℂ} {ε : ℝ} (hz : ‖z‖ = 1) (hw : ‖z - w‖ ≤ ε) {n : ℕ}
    (hn : 2 * n * ε ≤ 1) : ‖z ^ n - w ^ n‖ ≤ 2 * n * ε := by
  have hε : 0 ≤ ε := (norm_nonneg _).trans hw
  induction n with
  | zero => simp
  | succ n ih =>
    have hn' : 2 * n * ε ≤ 1 := by
      push_cast at hn
      linarith
    have hpow : ‖w ^ n‖ ≤ 2 := by
      have hzn : ‖z ^ n‖ = 1 := by rw [norm_pow, hz, one_pow]
      have hsub := norm_sub_norm_le (w ^ n) (z ^ n)
      rw [norm_sub_rev] at hsub
      linarith [ih hn']
    calc ‖z ^ (n + 1) - w ^ (n + 1)‖
        = ‖z * (z ^ n - w ^ n) + (z - w) * w ^ n‖ := by ring_nf
      _ ≤ ‖z‖ * ‖z ^ n - w ^ n‖ + ‖z - w‖ * ‖w ^ n‖ := by
        rw [← norm_mul, ← norm_mul]
        exact norm_add_le _ _
      _ ≤ 1 * (2 * n * ε) + ε * 2 := by
        rw [hz]
        gcongr
        exact ih hn'
      _ = 2 * (n + 1 : ℕ) * ε := by push_cast; ring

/-- **The sines,** to 53 bits. -/
theorem abs_sin_sub_le {n : ℕ} (hn : n ≤ 64) :
    |Real.sin n - ((expTerms ^ n).im : ℝ) / ((19).factorial : ℝ) ^ n| ≤ 1 / 2 ^ 53 := by
  have hsin : Real.sin n = (exp I ^ n).im := by
    rw [← exp_nat_mul, exp_im]
    simp
  have him : ((expTerms ^ n).im : ℝ) / ((19).factorial : ℝ) ^ n
      = ((GaussianInt.toComplex expTerms / ((19).factorial : ℂ)) ^ n).im := by
    have hreal : ((19).factorial : ℂ) ^ n = (((19).factorial ^ n : ℕ) : ℂ) := by push_cast; rfl
    rw [div_pow, ← map_pow, hreal, div_natCast_im, ← GaussianInt.intCast_im]
    push_cast
    rfl
  have hn' : (n : ℝ) ≤ 64 := by exact_mod_cast hn
  rw [hsin, him, ← sub_im]
  refine (abs_im_le_norm _).trans ?_
  refine (norm_pow_sub_pow_le (by simp [norm_exp]) norm_exp_I_sub_le ?_).trans ?_
  · linarith
  · linarith

/-- **The constants,** by bounds that are whole numbers. -/
theorem sines_between : ∀ t < 64,
    ((sines.getD t 0).toNat * 2 ^ 21 + 1) * (19).factorial ^ (t + 1)
        ≤ 2 ^ 53 * (expTerms ^ (t + 1)).im.natAbs ∧
      2 ^ 53 * (expTerms ^ (t + 1)).im.natAbs
        < ((sines.getD t 0).toNat * 2 ^ 21 + 2097151) * (19).factorial ^ (t + 1) := by
  decide +kernel

/-- **Each constant is a sine.** -/
theorem getD_sines {t : ℕ} (ht : t < 64) : sines.getD t 0 = .ofNat (sineBits (t + 1)) := by
  obtain ⟨hlow, hhigh⟩ := sines_between t ht
  have hsin := abs_sin_sub_le (n := t + 1) (by omega)
  set c := (sines.getD t 0).toNat with hc
  set y := (expTerms ^ (t + 1)).im
  have hpos : (0 : ℝ) < ((19).factorial : ℝ) ^ (t + 1) := by positivity
  -- the bounds, as quotients
  have hlow' : (c * 2 ^ 21 + 1 : ℝ) ≤ 2 ^ 53 * |(y : ℝ) / ((19).factorial : ℝ) ^ (t + 1)| := by
    rw [abs_div, abs_of_pos hpos, ← mul_div_assoc, le_div_iff₀ hpos, ← Int.cast_abs,
      Int.abs_eq_natAbs]
    exact_mod_cast hlow
  have hhigh' : 2 ^ 53 * |(y : ℝ) / ((19).factorial : ℝ) ^ (t + 1)| < c * 2 ^ 21 + 2097151 := by
    rw [abs_div, abs_of_pos hpos, ← mul_div_assoc, div_lt_iff₀ hpos, ← Int.cast_abs,
      Int.abs_eq_natAbs]
    exact_mod_cast hhigh
  have habs := (abs_abs_sub_abs_le _ _).trans hsin
  obtain ⟨hle, hge⟩ := abs_le.1 habs
  have hfloor : sineBits (t + 1) = c := by
    rw [sineBits, Nat.floor_eq_iff (by positivity)]
    constructor
    · linarith
    · linarith
  rw [hfloor, hc, UInt32.ofNat_toNat]

end KnownIssues.Digest.Md5
