import Mathlib.Data.Rat.Cast.Order
import Mathlib.Tactic.FieldSimp
import Mathlib.Tactic.Linarith
import Mathlib.Tactic.Positivity
import PointerMotion.Proofs.Floating.Position

/-!
# The error of floating-point arithmetic

Rounding moves a number of units by half the spacing at most.  The spacing at a magnitude is one
unit, or a small part of the magnitude (`Format.full_mul_spacing_le`), so the error of one rounding
is a small part of the exact result, plus half a unit for the results near zero, where the spacing
stops falling (`Format.abs_nearest_sub_le`).

From there on errors are rational numbers, measured in ones (`Format.ones`).  A unit is much smaller
than `Format.roundoff`, and so there is one bound for all magnitudes: a number `q` is off by
`roundoff * (|q| + 1)` at most.  This is the bound of `Format.abs_ones_round_sub_le` for sums and
products.  A quotient of two natural numbers is rounded three times, once for each of them and once
for itself, and as it is one at most, the three errors together are a few times `roundoff`
(`Format.abs_ones_ratio_sub_le`).
-/

namespace PointerMotion

/-- Rounding to an integer is off by a half at most. -/
theorem two_mul_natAbs_roundDiv_sub_le (num : Nat) {den : Nat} (h : 0 < den) :
    2 * ((roundDiv num den * den : Int) - num).natAbs ≤ den := by
  have hmod := Nat.mod_lt num h
  have hdiv := Nat.div_add_mod num den
  unfold roundDiv
  generalize num / den = q at hdiv ⊢
  generalize num % den = r at hdiv hmod ⊢
  have hcomm : (q : Int) * den = ((den * q : Nat) : Int) := by
    rw [Int.natCast_mul, Int.mul_comm]
  split
  · rw [hcomm]
    omega
  · rw [Int.natCast_add, Int.add_mul, hcomm]
    omega

namespace Floating.Format

variable {F : Format}

/-- The spacing at a magnitude is one, or it is small compared with the magnitude. -/
theorem full_mul_spacing_le (u : Nat) : F.full * F.spacing u ≤ 2 * u + F.full := by
  have hpos := F.spacing_pos u
  rcases Nat.lt_or_ge 1 (F.spacing u) with hlarge | hone
  · have hle := fractions_mul_spacing_le hlarge
    rw [← two_mul_fractions, Nat.mul_assoc]
    omega
  · rw [show F.spacing u = 1 by omega]
    omega

/-- **The error of rounding a quotient**, over the common denominator. -/
theorem full_mul_natAbs_nearest_sub_le (num : Nat) {den : Nat} (hden : 0 < den) :
    2 * F.full * ((F.nearest num den * den : Int) - num).natAbs ≤ 2 * num + F.full * den := by
  have hround := two_mul_natAbs_roundDiv_sub_le num
    (Nat.mul_pos hden (F.spacing_pos (num / den)))
  have hnearest : (F.nearest num den * den : Int) =
      roundDiv num (den * F.spacing (num / den)) * (den * F.spacing (num / den) : Nat) := by
    rw [nearest]
    push_cast
    ring
  rw [hnearest]
  calc 2 * F.full * _
      = F.full * (2 * _) := by ring
    _ ≤ F.full * (den * F.spacing (num / den)) := Nat.mul_le_mul_left _ hround
    _ = den * (F.full * F.spacing (num / den)) := by ring
    _ ≤ den * (2 * (num / den) + F.full) := Nat.mul_le_mul_left _ (full_mul_spacing_le _)
    _ = 2 * (den * (num / den)) + F.full * den := by ring
    _ ≤ 2 * num + F.full * den :=
      Nat.add_le_add_right (Nat.mul_le_mul_left 2 (Nat.mul_div_le num den)) _

/-- **The error of rounding a quotient** is a part of the quotient, or half a unit. -/
theorem abs_nearest_sub_le (num : Nat) {den : Nat} (hden : 0 < den) :
    |(F.nearest num den : ℚ) - num / den| ≤ num / den / F.full + 1 / 2 := by
  have hfull : (0 : ℚ) < F.full := by
    exact_mod_cast Nat.two_pow_pos F.precision
  have hden' : (0 : ℚ) < den := by exact_mod_cast hden
  have herror : (2 * F.full * |(F.nearest num den * den : ℚ) - num| : ℚ) ≤
      2 * num + F.full * den := by
    have hcast := F.full_mul_natAbs_nearest_sub_le num hden
    have hrat : ((2 * F.full * ((F.nearest num den * den : Int) - num).natAbs : Nat) : ℚ) ≤
        ((2 * num + F.full * den : Nat) : ℚ) := by exact_mod_cast hcast
    push_cast [Nat.cast_natAbs] at hrat
    exact hrat
  have hquotient : (F.nearest num den : ℚ) - num / den =
      ((F.nearest num den * den : ℚ) - num) / den := by
    field_simp
  rw [hquotient, abs_div, abs_of_pos hden', div_le_iff₀ hden']
  have : (num / den / F.full + 1 / 2 : ℚ) * den = (2 * num + F.full * den) / (2 * F.full) := by
    field_simp
  rw [this, le_div_iff₀ (by positivity)]
  linarith

/-! ## Errors in ones -/

/-- A number of units as a rational number. -/
def ones (F : Format) (i : Int) : ℚ := i / F.unit

/-- The part of a number by which rounding may be off. -/
def roundoff (F : Format) : ℚ := 1 / F.full

theorem unit_cast_pos : (0 : ℚ) < F.unit := Nat.cast_pos.2 F.unit_pos

theorem roundoff_pos : 0 < F.roundoff :=
  one_div_pos.2 (Nat.cast_pos.2 (Nat.two_pow_pos F.precision))

theorem ones_add (i j : Int) : F.ones (i + j) = F.ones i + F.ones j := by
  rw [ones, Int.cast_add, add_div]
  rfl

theorem ones_mul (n i : Int) : F.ones (n * i) = n * F.ones i := by
  rw [ones, Int.cast_mul, mul_div_assoc]
  rfl

theorem ones_mul_unit (n : Int) : F.ones (n * F.unit) = n := by
  rw [ones, Int.cast_mul, Int.cast_natCast, mul_div_cancel_right₀ _ F.unit_cast_pos.ne']

theorem full_le_unit (hF : F.precision ≤ F.scale) : F.full ≤ F.unit :=
  Nat.pow_le_pow_right (by decide) hF

/-- A unit is small compared with the part of one by which rounding may be off. -/
theorem one_div_unit_le (hF : F.precision ≤ F.scale) : (1 / F.unit : ℚ) ≤ F.roundoff :=
  one_div_le_one_div_of_le (Nat.cast_pos.2 (Nat.two_pow_pos F.precision))
    (Nat.cast_le.2 (full_le_unit hF))

/-- **The error of rounding a quotient**, in ones. -/
theorem abs_ones_nearest_sub_le (hF : F.precision ≤ F.scale) (num : Nat) {den : Nat}
    (hden : 0 < den) :
    |F.ones (F.nearest num den) - num / den / F.unit| ≤ F.roundoff * (num / den / F.unit + 1) := by
  have hunit : (0 : ℚ) < F.unit := F.unit_cast_pos
  have hsmall := F.one_div_unit_le hF
  rw [ones, Int.cast_natCast, ← sub_div, abs_div, abs_of_pos hunit]
  calc |(F.nearest num den : ℚ) - num / den| / F.unit
      ≤ (num / den / F.full + 1 / 2) / F.unit :=
        div_le_div_of_nonneg_right (F.abs_nearest_sub_le num hden) hunit.le
    _ = F.roundoff * (num / den / F.unit) + 1 / 2 * (1 / F.unit) := by
        rw [roundoff]
        ring
    _ ≤ F.roundoff * (num / den / F.unit) + F.roundoff := by
        have := F.roundoff_pos
        linarith
    _ = F.roundoff * (num / den / F.unit + 1) := by ring

theorem abs_ones_signed_sub (negative : Bool) (u v : Nat) :
    |F.ones (signed negative u) - F.ones (signed negative v)| = |F.ones u - F.ones v| := by
  cases negative with
  | false => rfl
  | true =>
    rw [signed_true, signed_true, ← neg_one_mul, ← neg_one_mul (v : Int), ones_mul, ones_mul,
      ← mul_sub, abs_mul]
    norm_num

/-- **The error of rounding to a position.** -/
theorem abs_ones_round_sub_le (hF : F.precision ≤ F.scale) (i : Int) :
    |F.ones (F.round i) - F.ones i| ≤ F.roundoff * (|F.ones i| + 1) := by
  have herror := F.abs_ones_nearest_sub_le hF i.natAbs Nat.one_pos
  have hmagnitude : |F.ones i| = F.ones i.natAbs := by
    rw [ones, ones, abs_div, abs_of_pos F.unit_cast_pos, Int.cast_natCast, Nat.cast_natAbs,
      Int.cast_abs]
  rw [Nat.cast_one, div_one] at herror
  rw [hmagnitude]
  conv => lhs; rw [← signed_natAbs i, ← signed_nearest, abs_ones_signed_sub]
  exact herror

theorem abs_ones_nearest_mul_unit_sub_le (hF : F.precision ≤ F.scale) (n : Nat) :
    |F.ones (F.nearest (n * F.unit) 1) - n| ≤ F.roundoff * (n + 1) := by
  have herror := F.abs_ones_nearest_sub_le hF (n * F.unit) Nat.one_pos
  rwa [Nat.cast_one, div_one, Nat.cast_mul, mul_div_cancel_right₀ _ F.unit_cast_pos.ne'] at herror

/-- A quotient of a smaller number by a greater one, in ones. -/
theorem abs_ones_ratio_le_one {e d : Nat} (hd : 0 < d) (he : e ≤ d) :
    |F.ones (F.ratio e d)| ≤ 1 := by
  rw [ones, Int.cast_natCast, abs_div, Nat.abs_cast, abs_of_pos F.unit_cast_pos,
    div_le_one F.unit_cast_pos]
  exact Nat.cast_le.2 (F.ratio_le_unit hd he)

/-- The quotient of two numbers that are off by a small part each. -/
theorem abs_div_sub_div_le {x y e d ε : ℚ} (he : 0 ≤ e) (hed : e ≤ d) (hd : 1 ≤ d) (hε : 0 ≤ ε)
    (hsmall : ε ≤ 1 / 16) (hx : |x - e| ≤ ε * (e + 1)) (hy : |y - d| ≤ ε * (d + 1)) :
    |x / y - e / d| ≤ 5 * ε := by
  have hx' : |x - e| ≤ 2 * ε * d := hx.trans (by nlinarith)
  have hy' : |y - d| ≤ 2 * ε * d := hy.trans (by nlinarith)
  have hypos : 7 / 8 * d ≤ y := by
    have := (abs_le.1 hy').1
    nlinarith
  have hcross : x / y - e / d = ((x - e) * d - e * (y - d)) / (y * d) := by
    have : y ≠ 0 := by linarith
    have : d ≠ 0 := by linarith
    field_simp
    ring
  have hnumerator : |(x - e) * d - e * (y - d)| ≤ 4 * ε * d * d :=
    calc |(x - e) * d - e * (y - d)| ≤ |(x - e) * d| + |e * (y - d)| := abs_sub _ _
      _ = |x - e| * d + e * |y - d| := by
        rw [abs_mul, abs_mul, abs_of_nonneg he, abs_of_nonneg (by linarith : (0 : ℚ) ≤ d)]
      _ ≤ 2 * ε * d * d + d * (2 * ε * d) := by gcongr
      _ = 4 * ε * d * d := by ring
  have hdenominator : 0 < y * d := mul_pos (by linarith) (by linarith)
  rw [hcross, abs_div, abs_of_pos hdenominator, div_le_iff₀ hdenominator]
  calc |(x - e) * d - e * (y - d)| ≤ 4 * ε * d * d := hnumerator
    _ ≤ 5 * ε * (7 / 8 * d * d) := by nlinarith [mul_nonneg hε (mul_self_nonneg d)]
    _ ≤ 5 * ε * (y * d) := by gcongr

/-- **The error of a quotient** of two natural numbers that are rounded first. -/
theorem abs_ones_ratio_sub_le (hF : F.precision ≤ F.scale) (hprecision : 4 ≤ F.precision)
    {e d : Nat} (hd : 0 < d) (he : e ≤ d) : |F.ones (F.ratio e d) - e / d| ≤ 7 * F.roundoff := by
  have hsmall : F.roundoff ≤ 1 / 16 := by
    have hfull : 16 ≤ F.full := Nat.pow_le_pow_right (show 0 < 2 by decide) hprecision
    exact one_div_le_one_div_of_le (by norm_num) (by exact_mod_cast hfull)
  have hparts := abs_div_sub_div_le (Nat.cast_nonneg e) (Nat.cast_le.2 he)
    (Nat.one_le_cast.2 hd) F.roundoff_pos.le hsmall (F.abs_ones_nearest_mul_unit_sub_le hF e)
    (F.abs_ones_nearest_mul_unit_sub_le hF d)
  have hpos := F.nearest_mul_unit_pos hd
  have hle := F.nearest_mul_unit_mono he
  have hround := F.abs_ones_nearest_sub_le hF (F.nearest (e * F.unit) 1 * F.unit) hpos
  rw [ratio]
  generalize F.nearest (e * F.unit) 1 = x at hparts hle hround ⊢
  generalize F.nearest (d * F.unit) 1 = y at hparts hpos hle hround ⊢
  have hunit : (F.unit : ℚ) ≠ 0 := F.unit_cast_pos.ne'
  have hy : (0 : ℚ) < y := Nat.cast_pos.2 hpos
  have hquotient : ((x * F.unit : Nat) : ℚ) / y / F.unit = F.ones x / F.ones y := by
    rw [ones, ones, Nat.cast_mul, Int.cast_natCast, Int.cast_natCast]
    field_simp
  have hone : F.ones x / F.ones y ≤ 1 := by
    rw [← hquotient, Nat.cast_mul, div_right_comm, mul_div_cancel_right₀ _ hunit, div_le_one hy]
    exact Nat.cast_le.2 hle
  rw [hquotient] at hround
  have hroundoff := F.roundoff_pos
  calc |F.ones (F.nearest (x * F.unit) y) - e / d|
      ≤ |F.ones (F.nearest (x * F.unit) y) - F.ones x / F.ones y| +
          |F.ones x / F.ones y - e / d| := abs_sub_le _ _ _
    _ ≤ F.roundoff * (F.ones x / F.ones y + 1) + 5 * F.roundoff := add_le_add hround hparts
    _ ≤ F.roundoff * (1 + 1) + 5 * F.roundoff := by gcongr
    _ = 7 * F.roundoff := by ring

end Floating.Format
end PointerMotion
