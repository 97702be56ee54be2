import Mathlib.Algebra.Order.Field.Power
import Mathlib.Algebra.Order.Field.Rat
import Mathlib.Algebra.Order.Floor.Ring
import Mathlib.Data.Rat.Floor
import Mathlib.Tactic.FieldSimp
import Mathlib.Tactic.Linarith
import Mathlib.Tactic.Positivity
import Mathlib.Tactic.Ring
/-!
# Rationals rounded to binary64

An operation on floats gives the rational result, rounded: to the nearest
multiple of its unit in the last place, and to the even one of two. The unit has
52 binary digits below the leading one of the number, but is never under
`2 ^ -1074`; what would come to `2 ^ 1024` is not finite. The error is at most
`Binary64.error` (`abs_sub_round_le`).
-/

namespace Binary64

/-- To the nearest integer, and to the even one of two. -/
def roundHalfEven (x : ℚ) : ℤ :=
  let floor := ⌊x⌋
  if x - floor < 1 / 2 then floor
  else if 1 / 2 < x - floor then floor + 1
  else if floor % 2 = 0 then floor
  else floor + 1

/-- The place of the leading binary digit of a number other than zero. -/
def exponent (x : ℚ) : ℤ :=
  let k : ℤ := (x.num.natAbs.log2 : ℤ) - (x.den.log2 : ℤ)
  if (2 : ℚ) ^ k ≤ |x| then k else k - 1

/-- The unit in the last place. -/
def ulp (x : ℚ) : ℚ := 2 ^ max (exponent x - 52) (-1074)

/-- The float nearest to a rational, where it is finite. -/
def round (x : ℚ) : Option ℚ :=
  let y := roundHalfEven (x / ulp x) * ulp x
  if |y| < 2 ^ 1024 then some y else none

/-- What rounding loses at most. -/
def error (x : ℚ) : ℚ := |x| / 2 ^ 53 + 2 ^ (-1075 : ℤ)

variable {x y : ℚ}

@[simp]
theorem roundHalfEven_zero : roundHalfEven 0 = 0 := by
  simp [roundHalfEven]

theorem abs_sub_roundHalfEven_le (x : ℚ) : |x - roundHalfEven x| ≤ 1 / 2 := by
  have hfloor : 0 ≤ x - ⌊x⌋ := sub_nonneg.mpr (Int.floor_le x)
  have hceil : x - ⌊x⌋ < 1 := by
    have := Int.lt_floor_add_one x
    linarith
  unfold roundHalfEven
  dsimp only
  split
  · rw [abs_of_nonneg hfloor]
    linarith
  · split
    · push_cast
      rw [abs_of_nonpos (by linarith)]
      linarith
    · split
      · rw [abs_of_nonneg hfloor]
        linarith
      · push_cast
        rw [abs_of_nonpos (by linarith)]
        linarith

theorem ulp_pos (x : ℚ) : 0 < ulp x := by
  unfold ulp
  positivity

/-- The leading digit is not above the number. -/
theorem pow_exponent_le (hx : x ≠ 0) : (2 : ℚ) ^ exponent x ≤ |x| := by
  unfold exponent
  dsimp only
  split
  · assumption
  · have hnum : (2 : ℚ) ^ x.num.natAbs.log2 ≤ x.num.natAbs := by
      exact_mod_cast Nat.log2_self_le (Int.natAbs_ne_zero.mpr (Rat.num_ne_zero.mpr hx))
    have hden : (x.den : ℚ) ≤ 2 ^ (x.den.log2 + 1) := by
      exact_mod_cast Nat.lt_log2_self.le
    have hpos : (0 : ℚ) < x.den := by exact_mod_cast x.den_pos
    have habs : |x| = x.num.natAbs / x.den := by
      conv_lhs => rw [← Rat.num_div_den x]
      rw [abs_div, Nat.abs_cast, Nat.cast_natAbs, Int.cast_abs]
    rw [habs, le_div_iff₀ hpos]
    calc (2 : ℚ) ^ ((x.num.natAbs.log2 : ℤ) - (x.den.log2 : ℤ) - 1) * x.den
        ≤ 2 ^ ((x.num.natAbs.log2 : ℤ) - (x.den.log2 : ℤ) - 1) * 2 ^ (x.den.log2 + 1) := by
          gcongr
      _ = 2 ^ x.num.natAbs.log2 := by
          rw [← zpow_natCast (2 : ℚ) (x.den.log2 + 1), ← zpow_add₀ two_ne_zero,
            ← zpow_natCast (2 : ℚ) x.num.natAbs.log2]
          congr 1
          push_cast
          ring
      _ ≤ x.num.natAbs := hnum

theorem ulp_le (hx : x ≠ 0) : ulp x / 2 ≤ error x := by
  have hleading := pow_exponent_le hx
  have hhalf : ulp x / 2 = 2 ^ (max (exponent x - 52) (-1074) - 1) := by
    rw [ulp, zpow_sub_one₀ two_ne_zero]
    ring
  have hfirst : (2 : ℚ) ^ (exponent x - 52 - 1) ≤ |x| / 2 ^ 53 := by
    have hsplit : exponent x - 52 - 1 = exponent x - (53 : ℕ) := by
      push_cast
      ring
    rw [hsplit, zpow_sub₀ two_ne_zero, zpow_natCast]
    gcongr
  have hpos : (0 : ℚ) < 2 ^ (-1075 : ℤ) := by positivity
  have hnonneg : (0 : ℚ) ≤ |x| / 2 ^ 53 := by positivity
  rw [hhalf, error]
  rcases max_choice (exponent x - 52) (-1074) with h | h <;> rw [h]
  · linarith
  · norm_num at hpos ⊢
    linarith

/-- A multiple of a unit is half of it away at most. -/
theorem abs_sub_roundHalfEven_mul_le {u : ℚ} (hu : 0 < u) (x : ℚ) :
    |x - roundHalfEven (x / u) * u| ≤ u / 2 := by
  have hscaled : x - roundHalfEven (x / u) * u = (x / u - roundHalfEven (x / u)) * u := by
    rw [sub_mul, div_mul_cancel₀ _ hu.ne']
  rw [hscaled, abs_mul, abs_of_pos hu]
  have := abs_sub_roundHalfEven_le (x / u)
  calc |x / u - roundHalfEven (x / u)| * u ≤ 1 / 2 * u := by gcongr
    _ = u / 2 := by ring

/-- **What rounding loses.** -/
theorem abs_roundTo_le (x : ℚ) : |x - roundHalfEven (x / ulp x) * ulp x| ≤ error x := by
  by_cases hx : x = 0
  · subst hx
    simp only [zero_div, roundHalfEven_zero, Int.cast_zero, zero_mul, sub_zero, abs_zero]
    unfold error
    positivity
  · exact (abs_sub_roundHalfEven_mul_le (ulp_pos x) x).trans (ulp_le hx)

theorem abs_sub_round_le (h : round x = some y) : |x - y| ≤ error x := by
  unfold round at h
  dsimp only at h
  split at h
  · exact Option.some.inj h ▸ abs_roundTo_le x
  · cases h

/-- What is not finite was large. -/
theorem le_abs_of_round_none (h : round x = none) : 2 ^ 1022 ≤ |x| := by
  unfold round at h
  dsimp only at h
  split at h
  · cases h
  · next hlarge =>
    have hlost := abs_roundTo_le x
    have htriangle := abs_sub_abs_le_abs_sub (roundHalfEven (x / ulp x) * ulp x) x
    rw [abs_sub_comm] at htriangle
    have hsmall : error x ≤ |x| + 1 := by
      unfold error
      have htiny : (2 : ℚ) ^ (-1075 : ℤ) ≤ 1 := zpow_le_one_of_nonpos₀ one_le_two (by norm_num)
      have hpart : |x| / 2 ^ 53 ≤ |x| := div_le_self (abs_nonneg x) (by norm_num)
      linarith
    have hone : (1 : ℚ) ≤ 2 ^ 1022 := one_le_pow₀ one_le_two
    have hfour : (2 : ℚ) ^ 1024 = 4 * 2 ^ 1022 := by
      rw [pow_add 2 1022 2]
      generalize (2 : ℚ) ^ 1022 = large
      ring
    rw [hfour] at hlarge
    generalize (2 : ℚ) ^ 1022 = large at hone hlarge ⊢
    linarith [not_lt.mp hlarge]

/-- Where a number is too large, the error may be too. -/
theorem le_error_of_round_none (h : round x = none) : 2 ^ 9 ≤ error x :=
  calc (2 : ℚ) ^ 9 ≤ 2 ^ 969 := pow_le_pow_right₀ one_le_two (by norm_num)
    _ = 2 ^ 1022 / 2 ^ 53 := by
      rw [eq_div_iff (by norm_num), ← pow_add]
    _ ≤ |x| / 2 ^ 53 := div_le_div_of_nonneg_right (le_abs_of_round_none h) (by norm_num)
    _ ≤ error x := le_add_of_nonneg_right (by positivity)

end Binary64
