import PointerMotion.Proofs.Floating.Root
import PointerMotion.Proofs.Geometry.Axis
import PointerMotion.Proofs.Geometry.Distance

/-!
# Distances as roots of whole numbers

The legs of a distance are differences of coordinates in double precision, and these are finite for
all coordinates: what counts of them is a number of units, the *gap* between the coordinates
(`Coord.gap`).  So a distance is the root of a whole number of square units, rounded once
(`Point.distance_eq_ofSquare`).

Two consequences are drawn from this.  Points are at distance zero exactly if double precision does
not tell their coordinates apart (`Point.isZero_distance_iff`); within `2 ^ 53` these are equal
points (`Point.isZero_distance_iff_eq`).  And where double precision has two coordinates and their
difference, the gap between them is exact (`Coord.gap_eq`), so that the distance is the rounded root
of the exact sum of squares.
-/

namespace PointerMotion

open Floating (Format)

namespace Coord

variable {a b : Coord}

/-- How far apart two coordinates are in double precision, in units. -/
def gap (a b : Coord) : Nat :=
  Format.binary64.nearest
    (Format.binary64.nearestInt b.val - Format.binary64.nearestInt a.val).natAbs 1

theorem gap_le (a b : Coord) : a.gap b ≤ 2 ^ 64 * Format.binary64.unit := by
  have hbelow (c : Coord) :
      (Format.binary64.nearestInt c.val).natAbs ≤ 2 ^ 63 * Format.binary64.unit := by
    rw [Format.nearestInt_eq_round]
    refine Format.natAbs_round_le ?_
    rw [Int.natAbs_mul, Int.natAbs_natCast]
    exact Nat.mul_le_mul_right _ c.natAbs_val_le
  have ha := hbelow a
  have hb := hbelow b
  rw [gap, ← Format.natAbs_round]
  exact Format.natAbs_round_le (by omega)

/-- The difference of two coordinates is finite, and its magnitude is their gap. -/
theorem exists_sub_eq_finite (a b : Coord) :
    ∃ s h, b.toDouble - a.toDouble = .finite s (a.gap b) h := by
  obtain ⟨s, hs⟩ := b.standsAt_toDouble.exists_sub_eq a.standsAt_toDouble
  have hlt : a.gap b < Format.binary64.bound :=
    Nat.lt_of_le_of_lt (gap_le a b) (Format.two_pow_mul_unit_lt_bound (by decide))
  exact ⟨s, _, hs.trans (Floating.ofUnits_of_lt hlt)⟩

/-- Within `2 ^ 53`, double precision tells all coordinates apart. -/
theorem nearestInt_inj (ha : a.val.natAbs ≤ 2 ^ 53) (hb : b.val.natAbs ≤ 2 ^ 53) :
    Format.binary64.nearestInt a.val = Format.binary64.nearestInt b.val ↔ a = b := by
  have hunit : (Format.binary64.unit : Int) ≠ 0 :=
    Int.natCast_ne_zero.2 (Nat.ne_of_gt Format.unit_pos)
  rw [Format.nearestInt_of_natAbs_le ha, Format.nearestInt_of_natAbs_le hb,
    Int.mul_eq_mul_right_iff hunit, Coord.ext_iff]

/-- There is no gap between coordinates that double precision does not tell apart. -/
theorem gap_eq_zero_iff :
    a.gap b = 0 ↔ Format.binary64.nearestInt a.val = Format.binary64.nearestInt b.val := by
  constructor
  · intro hzero
    by_contra hne
    have hpos : 0 < a.gap b := Format.nearest_pos Nat.one_pos (by omega)
    omega
  · intro heq
    rw [gap, heq, Int.sub_self, Int.natAbs_zero, Format.nearest_zero]

/-- Where double precision has both coordinates and their difference, the gap is exact. -/
theorem gap_eq (ha : a.val.natAbs ≤ 2 ^ 53) (hb : b.val.natAbs ≤ 2 ^ 53)
    (hway : (b.val - a.val).natAbs ≤ 2 ^ 53) :
    a.gap b = (b.val - a.val).natAbs * Format.binary64.unit := by
  rw [gap, Format.nearestInt_of_natAbs_le hb, Format.nearestInt_of_natAbs_le ha, ← Int.sub_mul,
    Int.natAbs_mul, Int.natAbs_natCast]
  exact Format.nearest_of_dvd (Format.spacing_dvd_mul_unit hway)

end Coord

namespace Point

variable {p q : Point}

/-- **A distance is the root of a whole number** of square units. -/
theorem distance_eq_ofSquare (p q : Point) : p.distance q =
    .ofSquare .binary64 (p.x.gap q.x * p.x.gap q.x + p.y.gap q.y * p.y.gap q.y) := by
  obtain ⟨s, hs, hx⟩ := Coord.exists_sub_eq_finite p.x q.x
  obtain ⟨t, ht, hy⟩ := Coord.exists_sub_eq_finite p.y q.y
  rw [distance, hx, hy]
  rfl

/-- **Which points are at distance zero.** -/
theorem isZero_distance_iff : (p.distance q).IsZero ↔
    Format.binary64.nearestInt p.x.val = Format.binary64.nearestInt q.x.val ∧
      Format.binary64.nearestInt p.y.val = Format.binary64.nearestInt q.y.val := by
  rw [distance_eq_ofSquare, Floating.isZero_ofSquare_iff, Nat.add_eq_zero_iff, mul_self_eq_zero,
    mul_self_eq_zero, Coord.gap_eq_zero_iff, Coord.gap_eq_zero_iff]

/-- Within `2 ^ 53`, only equal points are at distance zero. -/
theorem isZero_distance_iff_eq (hp : p.IsNear (2 ^ 53)) (hq : q.IsNear (2 ^ 53)) :
    (p.distance q).IsZero ↔ p = q := by
  rw [isZero_distance_iff, Coord.nearestInt_inj hp.x hq.x, Coord.nearestInt_inj hp.y hq.y,
    Point.ext_iff]

end Point
end PointerMotion
