import Mathlib.Algebra.Order.Floor.Semifield
import Mathlib.Analysis.Real.Sqrt
import PointerMotion.Proofs.Floating.Grid
import PointerMotion.Proofs.Geometry.Separation
import PointerMotion.Proofs.Gesture.Interpolation
import PointerMotion.Proofs.Gesture.TravelOrder

/-!
# How exact the time of a move is

The milliseconds of a move are the root of a whole number, times a thousand, by the speed, cut to an
integer, and root, product and quotient are rounded (`Format.travel`).  They are compared here with
the exact ones, and there are two arguments, because neither of them covers the other's case.

*Any distance* (`Format.travel_div_mem`).  Rounding is monotone and keeps magnitudes, so it is
enough to enclose the exact root by magnitudes and to carry these through product and quotient.  The
root is enclosed by neighbours on the grid of `2 ^ -11`, which a thousand takes to less than half a
millisecond.  From below, the bound that is carried on is an integer (`Format.mul_unit_le_travel`),
from above an integer and a half (`Format.travel_le_mul_grain`), and both end within one millisecond
of the exact value.  No more than that is true: an exact value just below an integer may be rounded
to it.

*An integer distance* (`Format.travel_mul_self_div`).  Root and product are exact, and what is left
is one rounded quotient of integers, which does not reach an integer that the exact quotient is
below.

Coordinates within `2 ^ 40` leave room for both: the sum of squares is `2 ^ 83` at most, and the
milliseconds stay within `2 ^ 52`.
-/

namespace PointerMotion

open Floating (Format)

/-! ## The exact distance -/

namespace Point

/-- The exact square of the distance of two points. -/
def squareTo (p q : Point) : Nat :=
  (q.x.val - p.x.val).natAbs ^ 2 + (q.y.val - p.y.val).natAbs ^ 2

/-- The exact distance of two points. -/
noncomputable def exactDistance (p q : Point) : ℝ := √(p.squareTo q)

variable {p q : Point}

theorem squareTo_le (hp : p.IsNear (2 ^ 40)) (hq : q.IsNear (2 ^ 40)) : p.squareTo q ≤ 2 ^ 83 := by
  have hx : (q.x.val - p.x.val).natAbs ≤ 2 ^ 41 := by
    have := hp.x
    have := hq.x
    omega
  have hy : (q.y.val - p.y.val).natAbs ≤ 2 ^ 41 := by
    have := hp.y
    have := hq.y
    omega
  calc p.squareTo q ≤ (2 ^ 41) ^ 2 + (2 ^ 41) ^ 2 :=
        Nat.add_le_add (Nat.pow_le_pow_left hx 2) (Nat.pow_le_pow_left hy 2)
    _ = 2 ^ 83 := by norm_num

/-- **The distance is the rounded root** of the exact square. -/
theorem distance_eq_ofSquare_squareTo (hp : p.IsNear (2 ^ 40)) (hq : q.IsNear (2 ^ 40)) :
    p.distance q = .ofSquare .binary64
      (p.squareTo q * (Format.binary64.unit * Format.binary64.unit)) := by
  have hx := Coord.gap_eq (a := p.x) (b := q.x) (hp.x.trans (by decide)) (hq.x.trans (by decide))
    (by have := hp.x; have := hq.x; omega)
  have hy := Coord.gap_eq (a := p.y) (b := q.y) (hp.y.trans (by decide)) (hq.y.trans (by decide))
    (by have := hp.y; have := hq.y; omega)
  have hsum (a b u : Nat) : a * u * (a * u) + b * u * (b * u) = (a ^ 2 + b ^ 2) * (u * u) := by ring
  rw [distance_eq_ofSquare, hx, hy, hsum, squareTo]

end Point

/-! ## The milliseconds of a move -/

namespace Floating.Format

/-- The position of the milliseconds that are computed for the root of `n` pixels at a speed. -/
def travel (F : Format) (n s : Nat) : Nat :=
  F.nearest (F.nearest (1000 * F.root (n * (F.unit * F.unit))) 1) s

variable {F : Format} {n s : Nat}

/-- **Over a whole number of pixels**, the milliseconds are exact. -/
theorem travel_mul_self_div {k : Nat} (hk : 2 * (1000 * k) ≤ F.full) (hs : 0 < s)
    (hsu : s < F.unit) : F.travel (k * k) s / F.unit = 1000 * k / s := by
  rw [travel, root_mul_unit (by omega), ← Nat.mul_assoc,
    nearest_of_dvd (spacing_dvd_mul_unit (by omega))]
  exact nearest_mul_unit_div hk hs hsu

/-- If the root is `q * s / 1000` at least by its place on the grid, the milliseconds are `q` at
least. -/
theorem mul_unit_le_travel (hF : 11 ≤ F.scale) (hs : 0 < s) {q r : Nat}
    (hr : r = Nat.sqrt (2 ^ 11 * 2 ^ 11 * n)) (hfull : r < F.full) (hq : q * s ≤ F.full)
    (h : 2 ^ 11 * (q * s) ≤ 1000 * r) : q * F.unit ≤ F.travel n s := by
  have hroot : r * F.grain 11 ≤ F.root (n * (F.unit * F.unit)) := by
    rw [hr] at hfull ⊢
    exact (root_mem_grid hF hfull).1
  have hproduct : q * s * F.unit ≤ F.nearest (1000 * F.root (n * (F.unit * F.unit))) 1 := by
    refine le_nearest Nat.one_pos (spacing_dvd_mul_unit hq) ?_
    calc q * s * F.unit * 1 = 2 ^ 11 * (q * s) * F.grain 11 := by
          rw [← two_pow_mul_grain hF]
          ring
      _ ≤ 1000 * r * F.grain 11 := Nat.mul_le_mul_right _ h
      _ = 1000 * (r * F.grain 11) := Nat.mul_assoc _ _ _
      _ ≤ 1000 * F.root (n * (F.unit * F.unit)) := Nat.mul_le_mul_left _ hroot
  refine le_nearest hs (spacing_dvd_mul_unit ((Nat.le_mul_of_pos_right q hs).trans hq)) ?_
  rwa [Nat.mul_right_comm]

/-- If the root is `(q * s + 1 / 2) / 1000` at most by its place on the grid, the milliseconds are
`q + 1 / 2` at most. -/
theorem travel_le_mul_grain (hF : 11 ≤ F.scale) (hs : 0 < s) {q r : Nat}
    (hr : r = Nat.sqrt (2 ^ 11 * 2 ^ 11 * n)) (hfull : r < F.full) (hq : 2 * (q * s) + 1 ≤ F.full)
    (h : 1000 * (r + 1) ≤ 2 ^ 10 * (2 * (q * s) + 1)) :
    F.travel n s ≤ (2 * q + 1) * F.grain 1 := by
  have hroot : F.root (n * (F.unit * F.unit)) ≤ (r + 1) * F.grain 11 := by
    rw [hr] at hfull ⊢
    exact (root_mem_grid hF hfull).2
  have hhalf : F.grain 1 = 2 ^ 10 * F.grain 11 := by
    have h₁₁ := two_pow_mul_grain hF
    have h₁ := two_pow_mul_grain (F := F) (k := 1) (by omega)
    omega
  have hproduct : F.nearest (1000 * F.root (n * (F.unit * F.unit))) 1 ≤
      (2 * (q * s) + 1) * F.grain 1 := by
    refine nearest_le Nat.one_pos (spacing_dvd_mul_grain 1 hq) ?_
    calc 1000 * F.root (n * (F.unit * F.unit)) ≤ 1000 * ((r + 1) * F.grain 11) :=
          Nat.mul_le_mul_left _ hroot
      _ = 1000 * (r + 1) * F.grain 11 := (Nat.mul_assoc _ _ _).symm
      _ ≤ 2 ^ 10 * (2 * (q * s) + 1) * F.grain 11 := Nat.mul_le_mul_right _ h
      _ = (2 * (q * s) + 1) * F.grain 1 * 1 := by
          rw [hhalf]
          ring
  have hqs : q ≤ q * s := Nat.le_mul_of_pos_right q hs
  refine nearest_le hs (spacing_dvd_mul_grain 1 (by omega)) (hproduct.trans ?_)
  calc (2 * (q * s) + 1) * F.grain 1 ≤ (2 * (q * s) + s) * F.grain 1 :=
        Nat.mul_le_mul_right _ (Nat.add_le_add_left hs _)
    _ = (2 * q + 1) * F.grain 1 * s := by ring

/-- **Over any number of pixels**, the milliseconds are off by one at most. -/
theorem travel_div_mem (hF : 11 ≤ F.scale) (hs : 0 < s)
    (hroot : Nat.sqrt (2 ^ 11 * 2 ^ 11 * n) < F.full)
    (hfull : 2 * (Nat.sqrt (1000 * 1000 * n) + s) < F.full) :
    Nat.sqrt (1000 * 1000 * n) / s ≤ F.travel n s / F.unit + 1 ∧
      F.travel n s / F.unit ≤ Nat.sqrt (1000 * 1000 * n) / s + 1 := by
  have hbelow := mul_sqrt_lt (2 ^ 11) n (show 0 < 1000 by decide)
  have habove := mul_sqrt_lt 1000 n (show 0 < 2 ^ 11 by decide)
  have hlower {q : Nat} := mul_unit_le_travel (q := q) hF hs rfl hroot
  have hupper {q : Nat} := travel_le_mul_grain (q := q) hF hs rfl hroot
  generalize Nat.sqrt (2 ^ 11 * 2 ^ 11 * n) = r at *
  generalize Nat.sqrt (1000 * 1000 * n) = w at *
  have hfloor := Nat.div_mul_le_self w s
  have hceil : w < (w / s + 1) * s := (Nat.div_lt_iff_lt_mul hs).1 (Nat.lt_succ_self _)
  generalize w / s = q at *
  constructor
  · cases q with
    | zero => exact Nat.zero_le _
    | succ q =>
      rw [Nat.succ_mul] at hfloor
      have hle := hlower (q := q) (by omega) (by omega)
      exact Nat.succ_le_succ ((Nat.le_div_iff_mul_le F.unit_pos).2 hle)
  · have hsucc : (q + 1) * s ≤ w + s := by
      rw [Nat.succ_mul]
      exact Nat.add_le_add_right hfloor s
    have hle := hupper (q := q + 1) (by omega) (by omega)
    have hhalf := two_pow_mul_grain (F := F) (k := 1) (by omega)
    have hpos := F.unit_pos
    refine Nat.le_of_lt_succ ((Nat.div_lt_iff_lt_mul hpos).2 (Nat.lt_of_le_of_lt hle ?_))
    rw [← hhalf] at hpos ⊢
    calc (2 * (q + 1) + 1) * F.grain 1 < (2 * (q + 1) + 2) * F.grain 1 :=
          Nat.mul_lt_mul_of_pos_right (by omega) (by omega)
      _ = (q + 1).succ * (2 ^ 1 * F.grain 1) := by
          rw [Nat.succ_eq_add_one]
          ring

/-- Over at most `2 ^ 42` pixels, the milliseconds are `2 ^ 52` at most. -/
theorem travel_le (hfull : 2 ^ 52 ≤ F.full) (hs : 0 < s) (hn : n ≤ 2 ^ 42 * 2 ^ 42) :
    F.root (n * (F.unit * F.unit)) ≤ 2 ^ 42 * F.unit ∧
      F.nearest (1000 * F.root (n * (F.unit * F.unit))) 1 ≤ 2 ^ 52 * F.unit ∧
        F.travel n s ≤ 2 ^ 52 * F.unit := by
  have hroot : F.root (n * (F.unit * F.unit)) ≤ 2 ^ 42 * F.unit := by
    refine root_le (spacing_dvd_mul_unit (by omega)) ?_
    rw [Nat.mul_mul_mul_comm]
    exact Nat.mul_le_mul_right _ hn
  have hproduct : F.nearest (1000 * F.root (n * (F.unit * F.unit))) 1 ≤ 2 ^ 52 * F.unit := by
    refine nearest_le Nat.one_pos (spacing_dvd_mul_unit hfull) ?_
    omega
  refine ⟨hroot, hproduct, ?_⟩
  exact nearest_le hs (spacing_dvd_mul_unit hfull)
    (hproduct.trans (Nat.le_mul_of_pos_right _ hs))

theorem travel_div_le (hfull : 2 ^ 52 ≤ F.full) (hs : 0 < s) (hn : n ≤ 2 ^ 42 * 2 ^ 42) :
    F.travel n s / F.unit ≤ 2 ^ 52 := by
  refine Nat.div_le_of_le_mul ?_
  rw [Nat.mul_comm]
  exact (travel_le hfull hs hn).2.2

end Floating.Format

/-- **The time of a move** is the whole milliseconds that are computed for the exact square of its
way. -/
theorem travelTime_distance {p q : Point} {speed : UInt32} (hp : p.IsNear (2 ^ 40))
    (hq : q.IsNear (2 ^ 40)) (hspeed : speed ≠ 0) :
    travelTime (p.distance q) speed = pure (.ofMillis
      (Format.binary64.travel (p.squareTo q) speed.toNat / Format.binary64.unit)) := by
  have hs := toNat_speed_pos hspeed
  have hn : p.squareTo q ≤ 2 ^ 42 * 2 ^ 42 := (Point.squareTo_le hp hq).trans (by decide)
  obtain ⟨hroot, hproduct, htravel⟩ := Format.travel_le (F := .binary64) (by decide) hs hn
  have hrange {k : Nat} (hk : k < 2 ^ 10) : 2 ^ k * Format.binary64.unit < Format.binary64.bound :=
    Format.two_pow_mul_unit_lt_bound hk
  have hposition := Floating.position_ofSquare (Nat.lt_of_le_of_lt hroot (hrange (by decide)))
  rw [← Point.distance_eq_ofSquare_squareTo hp hq] at hposition
  by_cases hzero : (p.distance q).IsZero
  · have hnone := Int.natCast_eq_zero.1 (Option.some.inj (hposition.symm.trans hzero))
    rw [travelTime_of_isZero hzero, Format.travel, hnone, Nat.mul_zero, Format.nearest_zero,
      Format.nearest_zero, Nat.zero_div]
    rfl
  · have hmillis := position_travelMillis hposition hspeed
    have hholds := Nat.lt_of_le_of_lt hproduct (hrange (by decide))
    rw [Format.multiple_eq hholds,
      Format.part_eq ⟨hholds, Format.spacing_dvd_nearest _ _⟩ hs] at hmillis
    have hfinite : (travelMillis (p.distance q) speed).StandsAt
        (Format.binary64.travel (p.squareTo q) speed.toNat : Nat) := by
      refine Floating.exists_eq_finite_of_position hmillis ?_
      rw [Int.natAbs_natCast]
      exact Nat.lt_of_le_of_lt htravel (hrange (by decide))
    have hquotient := Format.travel_div_le (F := .binary64) (by decide) hs hn
    rw [travelTime_of_ne hzero hspeed, hfinite.truncate_eq,
      Int.tdiv_eq_ediv_of_nonneg (Int.natCast_nonneg _), ← Int.natCast_ediv]
    generalize Format.binary64.travel (p.squareTo q) speed.toNat / Format.binary64.unit = m at *
    have hcut : (max 0 (min (Duration.greatestWritten : Int) m)).toNat = m := by
      unfold Duration.greatestWritten
      omega
    rw [hcut]

/-- The exact milliseconds, cut to an integer, are those of an integer root. -/
theorem floor_exactDistance (p q : Point) (s : Nat) :
    ⌊1000 * p.exactDistance q / s⌋₊ = Nat.sqrt (1000 * 1000 * p.squareTo q) / s := by
  have hthousand : 1000 * p.exactDistance q = √((1000 * 1000 * p.squareTo q : Nat) : ℝ) := by
    rw [Point.exactDistance, Nat.cast_mul, Real.sqrt_mul (Nat.cast_nonneg _), Nat.cast_mul,
      Real.sqrt_mul_self (Nat.cast_nonneg _), Nat.cast_ofNat]
  rw [Nat.floor_div_natCast, hthousand, Real.nat_floor_real_sqrt_eq_nat_sqrt]

namespace Gesture

/-- **The time of a move at a speed.**  Let a gesture end within `2 ^ 40`, where all integers of half
the width of a coordinate are, and let it be moved on to a point there at a speed that is not zero.
Then it has one more action, nothing is reported, and the move takes a whole number of milliseconds:

* they differ by one at most from a thousand times the exact distance by the speed, cut to an
  integer;
* where the distance is an integer they are exact, and so along an axis. -/
theorem moveAtSpeed_near_exact (g : Gesture) {target : Point} {speed : UInt32}
    (hfinish : g.finish.IsNear (2 ^ 40)) (htarget : target.IsNear (2 ^ 40)) (hspeed : speed ≠ 0) :
    ∃ m : Nat,
      g.moveAtSpeed target speed = pure (g.append (.move g.finish target (.ofMillis m))) ∧
      (Duration.ofMillis m).nanos = m * 1000000 ∧
      ((m : Int) - ⌊1000 * g.finish.exactDistance target / speed.toNat⌋₊).natAbs ≤ 1 ∧
      (∀ k, g.finish.squareTo target = k ^ 2 → m = 1000 * k / speed.toNat) ∧
      (g.finish.y = target.y →
        m = 1000 * (target.x.val - g.finish.x.val).natAbs / speed.toNat) ∧
      (g.finish.x = target.x →
        m = 1000 * (target.y.val - g.finish.y.val).natAbs / speed.toNat) := by
  have hs := toNat_speed_pos hspeed
  have hs' : speed.toNat < 2 ^ 32 := speed.toNat_lt
  have hn := Point.squareTo_le hfinish htarget
  have hfull : Format.binary64.full = 2 ^ 53 := rfl
  have hwhole {k : Nat} (hk : g.finish.squareTo target = k ^ 2) :
      Format.binary64.travel (g.finish.squareTo target) speed.toNat / Format.binary64.unit =
        1000 * k / speed.toNat := by
    have hbound : k ≤ 2 ^ 42 := by
      refine Nat.mul_self_le_mul_self_iff.1 ?_
      rw [← Nat.pow_two, ← hk]
      exact hn.trans (by decide)
    have hunit := Format.full_le_unit (F := .binary64) (by decide)
    rw [hk, Nat.pow_two]
    exact Format.travel_mul_self_div (by omega) hs (by omega)
  have hroot : Nat.sqrt (2 ^ 11 * 2 ^ 11 * g.finish.squareTo target) < Format.binary64.full := by
    rw [Nat.sqrt_lt, hfull]
    omega
  have hmillis : Nat.sqrt (1000 * 1000 * g.finish.squareTo target) < 2 ^ 52 - 2 ^ 32 := by
    rw [Nat.sqrt_lt]
    omega
  refine ⟨_, ?_, ?_, ?_, fun k hk => hwhole hk, fun hy => hwhole ?_, fun hx => hwhole ?_⟩
  · rw [moveAtSpeed, travelTime_distance hfinish htarget hspeed, pure_bind]
    rfl
  · refine Duration.nanos_ofMillis ?_
    exact (Format.travel_div_le (by decide) hs (hn.trans (by decide))).trans (by decide)
  · have hmem := Format.travel_div_mem (F := .binary64) (by decide) hs hroot (by omega)
    rw [floor_exactDistance]
    omega
  · rw [Point.squareTo, hy, Int.sub_self, Int.natAbs_zero, Nat.zero_pow (by decide), Nat.add_zero]
  · rw [Point.squareTo, hx, Int.sub_self, Int.natAbs_zero, Nat.zero_pow (by decide), Nat.zero_add]

/-- A way of 200000 pixels and 20 pixels aside, at one pixel per second: a thousand times the
distance is the root of `200000001 ^ 2 - 1`, which is rounded to 200000001. -/
theorem moveAtSpeed_near_exact_rounded_up :
    let g := touch ⟨0, 0⟩
    let target : Point := ⟨200000, 20⟩
    g.finish.IsNear (2 ^ 40) ∧ target.IsNear (2 ^ 40) ∧ (1 : UInt32) ≠ 0 ∧
      (g.moveAtSpeed target 1).value = g.append (.move g.finish target (.ofMillis 200000001)) ∧
      ⌊1000 * g.finish.exactDistance target / (1 : UInt32).toNat⌋₊ = 200000000 ∧
      ∃ m : Nat, g.moveAtSpeed target 1 = pure (g.append (.move g.finish target (.ofMillis m))) ∧
        ((m : Int) - 200000000).natAbs ≤ 1 := by
  intro g target
  have hfinish : g.finish.IsNear (2 ^ 40) := by decide
  have htarget : target.IsNear (2 ^ 40) := by decide
  have hspeed : (1 : UInt32) ≠ 0 := by decide
  have hroot : Nat.sqrt (1000 * 1000 * g.finish.squareTo target) = 200000000 :=
    (Nat.eq_sqrt.2 (by decide)).symm
  have hfloor : ⌊1000 * g.finish.exactDistance target / (1 : UInt32).toNat⌋₊ = 200000000 := by
    rw [floor_exactDistance, hroot]
    rfl
  obtain ⟨m, hmove, -, hnear, -⟩ := g.moveAtSpeed_near_exact hfinish htarget hspeed
  rw [hfloor] at hnear
  exact ⟨hfinish, htarget, hspeed, by decide +kernel, hfloor, m, hmove, hnear⟩

end Gesture
end PointerMotion
