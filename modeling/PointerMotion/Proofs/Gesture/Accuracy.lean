import Mathlib.Data.Rat.Floor
import PointerMotion.Proofs.Floating.Error
import PointerMotion.Proofs.Gesture.Interpolation

/-!
# How exact the pointer is

The coordinate that a pointer has in the course of an action is compared here with the exact one, a
rational number cut to an integer.  No bound on the distance of two numbers says that their integer
parts agree, however small it is: the exact number may be an integer, and the computed one just
below it.  A distance of less than one is enough, though, for integer parts that are one apart at
most (`natAbs_towardZero_sub_le`), on either side of zero and across it.

For coordinates within `2 ^ 48` there is ample room.  The sum of what rounding does to the fraction,
to the product and to the sum is less than one even with a way of `2 ^ 49` (`abs_add_mul_sub_lt`),
and how long the action takes does not matter, because the fraction is one at most.
-/

namespace PointerMotion

open Floating (Format)

/-! ## The integer part of a rational number -/

/-- The integer part of a rational number, cut toward zero. -/
def towardZero (q : ℚ) : Int := if 0 ≤ q then ⌊q⌋ else ⌈q⌉

theorem towardZero_neg (q : ℚ) : towardZero (-q) = -towardZero q := by
  unfold towardZero
  rcases lt_trichotomy q 0 with hneg | rfl | hpos
  · rw [if_pos (by linarith), if_neg (by linarith), Int.floor_neg]
  · simp
  · rw [if_neg (by linarith), if_pos hpos.le, Int.ceil_neg]

/-- Integer division toward zero is the integer part of the quotient. -/
theorem tdiv_eq_towardZero (i : Int) {u : Nat} (hu : 0 < u) : i.tdiv u = towardZero (i / u) := by
  have hdiv {j : Int} (hj : 0 ≤ j) : j.tdiv u = towardZero (j / u) := by
    have hnonneg : (0 : ℚ) ≤ j / u :=
      div_nonneg (Int.cast_nonneg hj) (Nat.cast_pos.2 hu).le
    rw [towardZero, if_pos hnonneg, Rat.floor_intCast_div_natCast, Int.tdiv_eq_ediv_of_nonneg hj]
  rcases Int.le_total 0 i with hi | hi
  · exact hdiv hi
  · have hopposite := hdiv (show 0 ≤ -i by omega)
    rwa [Int.neg_tdiv, Int.cast_neg, neg_div, towardZero_neg, neg_inj] at hopposite

/-- A number is not cut to more than one above the integer part of another if it is less than one
above it. -/
theorem towardZero_le_add_one {q r : ℚ} (h : q < r + 1) : towardZero q ≤ towardZero r + 1 := by
  unfold towardZero
  by_cases hq : 0 ≤ q
  · by_cases hr : 0 ≤ r
    · rw [if_pos hq, if_pos hr, ← Int.floor_add_one]
      exact Int.floor_mono h.le
    · -- the numbers are on both sides of zero, and near it
      have hfloor : ⌊q⌋ ≤ 0 := by
        rw [← Int.lt_add_one_iff, Int.floor_lt]
        push_cast
        linarith
      have hceil : -1 < ⌈r⌉ := by
        rw [Int.lt_ceil]
        push_cast
        linarith
      rw [if_pos hq, if_neg hr]
      omega
  · have hceil : ⌈q⌉ ≤ 0 := Int.ceil_le.2 (by push_cast; linarith)
    by_cases hr : 0 ≤ r
    · have hfloor : 0 ≤ ⌊r⌋ := Int.floor_nonneg.2 hr
      rw [if_neg hq, if_pos hr]
      omega
    · rw [if_neg hq, if_neg hr, ← Int.ceil_add_one]
      exact Int.ceil_mono h.le

/-- Numbers less than one apart have integer parts that are one apart at most. -/
theorem natAbs_towardZero_sub_le {q r : ℚ} (h : |q - r| < 1) :
    (towardZero q - towardZero r).natAbs ≤ 1 := by
  obtain ⟨hlower, hupper⟩ := abs_lt.1 h
  have hle := towardZero_le_add_one (show q < r + 1 by linarith)
  have hge := towardZero_le_add_one (show r < q + 1 by linarith)
  omega

/-! ## The error of a coordinate -/

/-- The error of a fraction of a way, added to where it begins, if the fraction, the product and
the sum are off by small parts of them. -/
theorem abs_add_mul_sub_lt {a n fraction product sum q ε : ℚ} (ha : |a| ≤ 2 ^ 48)
    (hn : |n| ≤ 2 ^ 49) (hε : ε = 1 / 2 ^ 53) (hone : |fraction| ≤ 1)
    (hfraction : |fraction - q| ≤ 7 * ε)
    (hproduct : |product - n * fraction| ≤ ε * (|n * fraction| + 1))
    (hsum : |sum - (a + product)| ≤ ε * (|a + product| + 1)) : |sum - (a + n * q)| < 1 := by
  subst hε
  have hpart : |n * fraction| ≤ 2 ^ 49 := by
    rw [abs_mul]
    calc |n| * |fraction| ≤ 2 ^ 49 * 1 := by gcongr
      _ = 2 ^ 49 := mul_one _
  have hproduct' : |product - n * fraction| ≤ 1 / 2 ^ 53 * (2 ^ 49 + 1) :=
    hproduct.trans (by gcongr)
  have hmagnitude : |a + product| ≤ 2 ^ 48 + 2 ^ 49 + 1 :=
    calc |a + product| = |a + n * fraction + (product - n * fraction)| := by ring_nf
      _ ≤ |a| + |n * fraction| + |product - n * fraction| := abs_add_three _ _ _
      _ ≤ 2 ^ 48 + 2 ^ 49 + 1 / 2 ^ 53 * (2 ^ 49 + 1) := by gcongr
      _ ≤ 2 ^ 48 + 2 ^ 49 + 1 := by norm_num
  have hway : |n * (fraction - q)| ≤ 2 ^ 49 * (7 * (1 / 2 ^ 53)) := by
    rw [abs_mul]
    gcongr
  calc |sum - (a + n * q)|
      = |(sum - (a + product)) + (product - n * fraction) + n * (fraction - q)| := by ring_nf
    _ ≤ |sum - (a + product)| + |product - n * fraction| + |n * (fraction - q)| :=
      abs_add_three _ _ _
    _ ≤ 1 / 2 ^ 53 * (2 ^ 48 + 2 ^ 49 + 1 + 1) + 1 / 2 ^ 53 * (2 ^ 49 + 1) +
        2 ^ 49 * (7 * (1 / 2 ^ 53)) := by
      refine add_le_add (add_le_add (hsum.trans ?_) hproduct') hway
      gcongr
    _ < 1 := by norm_num

namespace Coord

variable {a b : Coord}

/-- The integer part of the exact coordinate on the way from `a` to `b`, when `e` of `d` nanoseconds
have passed. -/
def exactBetween (a b : Coord) (e d : Nat) : Int :=
  towardZero (a.val + (b.val - a.val) * (e / d : ℚ))

/-- **A coordinate in the course of an action** is one off at most. -/
theorem natAbs_interpolated_sub_le {e d : Nat} (ha : a.val.natAbs ≤ 2 ^ 48)
    (hb : b.val.natAbs ≤ 2 ^ 48) (hd : 0 < d) (he : e ≤ d) :
    (a.interpolated b (Format.binary64.ratio e d) - a.exactBetween b e d).natAbs ≤ 1 := by
  have hF : Format.binary64.precision ≤ Format.binary64.scale := by decide
  have hroundoff : Format.binary64.roundoff = 1 / 2 ^ 53 := by
    rw [Format.roundoff, show Format.binary64.full = 2 ^ 53 from rfl]
    norm_num
  have hfraction := Format.abs_ones_ratio_sub_le hF (by decide) hd he
  have hproduct := Format.abs_ones_round_sub_le hF ((b.val - a.val) * Format.binary64.ratio e d)
  have hsum := Format.abs_ones_round_sub_le hF (a.val * Format.binary64.unit +
    Format.binary64.round ((b.val - a.val) * Format.binary64.ratio e d))
  have hone := Format.abs_ones_ratio_le_one (F := .binary64) hd he
  have ha' : |(a.val : ℚ)| ≤ 2 ^ 48 := by
    rw [← Int.cast_abs, Int.abs_eq_natAbs]
    exact_mod_cast ha
  have hn : |((b.val - a.val : Int) : ℚ)| ≤ 2 ^ 49 := by
    rw [← Int.cast_abs, Int.abs_eq_natAbs]
    exact_mod_cast (show (b.val - a.val).natAbs ≤ 2 ^ 49 by omega)
  rw [Format.ones_mul] at hproduct
  rw [Format.ones_add, Format.ones_mul_unit] at hsum
  have herror := abs_add_mul_sub_lt ha' hn hroundoff hone hfraction hproduct hsum
  rw [interpolated, Format.nearestInt_of_natAbs_le (ha.trans (by decide)),
    tdiv_eq_towardZero _ Format.unit_pos, exactBetween]
  rw [Int.cast_sub] at herror
  exact natAbs_towardZero_sub_le herror

end Coord

namespace Gesture

variable (g : Gesture) (t : Duration) {i : Nat} {a : Action}

/-- **The pointer is within one of where it would be exactly.**  While an action is under way whose
ends are within `2 ^ 48`, as all integers of half the width of a coordinate are, the pointer is
somewhere, and on each axis its coordinate differs by one at most from the exact coordinate at the
time that has passed, cut toward zero. -/
theorem pointAt_near_exact (ha : g.actions[i]? = some a) (hbegin : before g.actions i ≤ t.nanos)
    (hend : t.nanos < before g.actions i + a.duration.nanos)
    (hstart : a.start.IsNear (2 ^ 48)) (hfinish : a.finish.IsNear (2 ^ 48)) :
    ∃ p, g.pointAt t = .ok p ∧ ∀ d, ((p.along d).val -
      (a.start.along d).exactBetween (a.finish.along d) (t.nanos - before g.actions i)
        a.duration.nanos).natAbs ≤ 1 := by
  have hwide : 2 ^ 48 ≤ 2 ^ 52 := by decide
  obtain ⟨p, hp, hval⟩ := g.exists_pointAt_of_underWay t ha hbegin hend (hstart.mono hwide)
    (hfinish.mono hwide)
  refine ⟨p, hp, fun d => ?_⟩
  rw [hval d]
  exact Coord.natAbs_interpolated_sub_le (hstart.along d) (hfinish.along d) (by omega) (by omega)

/-- One of forty-nine nanoseconds on a way of forty-nine: the exact coordinate is one, but the
product of `49` with the quotient of `1` by `49` is less than one in double precision. -/
theorem pointAt_near_exact_short :
    let a : Action := .move ⟨.clamp (-7), 0⟩ ⟨42, 49⟩ ⟨49, by decide⟩
    let g : Gesture := ⟨⟨5, 5⟩, .zero, [.pause ⟨1, 1⟩ (.ofMillis 3), a]⟩
    let t : Duration := ⟨3000001, by decide⟩
    g.actions[1]? = some a ∧ before g.actions 1 ≤ t.nanos ∧
      t.nanos < before g.actions 1 + a.duration.nanos ∧
      a.start.IsNear (2 ^ 48) ∧ a.finish.IsNear (2 ^ 48) ∧
      Coord.exactBetween 0 49 1 49 = 1 ∧ ∃ p, g.pointAt t = .ok p ∧ p.y = 0 ∧
        (p.y.val - Coord.exactBetween 0 49 1 49).natAbs ≤ 1 := by
  intro a g t
  have ha : g.actions[1]? = some a := rfl
  have hbegin : before g.actions 1 ≤ t.nanos := by decide
  have hend : t.nanos < before g.actions 1 + a.duration.nanos := by decide
  have hstart : a.start.IsNear (2 ^ 48) := by decide
  have hfinish : a.finish.IsNear (2 ^ 48) := by decide
  have hexact : Coord.exactBetween 0 49 1 49 = 1 := by decide +kernel
  have hpassed : t.nanos - before g.actions 1 = 1 := by decide
  obtain ⟨p, hp, hnear⟩ := g.pointAt_near_exact t ha hbegin hend hstart hfinish
  rw [hpassed] at hnear
  have hpoint : g.pointAt t = .ok ⟨.clamp (-6), 0⟩ := by decide +kernel
  obtain rfl : ⟨.clamp (-6), 0⟩ = p := Except.ok.inj (hpoint.symm.trans hp)
  exact ⟨ha, hbegin, hend, hstart, hfinish, hexact, _, hp, rfl, hnear .up⟩

end Gesture
end PointerMotion
