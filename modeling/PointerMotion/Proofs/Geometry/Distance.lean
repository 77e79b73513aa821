import PointerMotion.Coord.Floating
import PointerMotion.Geometry.Point
import PointerMotion.Proofs.Floating.Position

/-!
# Distances and the gaps between coordinates

The distance of two points is the hypotenuse of the differences of their coordinates, and a
hypotenuse does not see the sign of its legs.  So all that matters of two coordinates is their
*gap*, the difference up to its sign (`Coord.SameGap`).

Coordinates are finite numbers in double precision.  A finite number stands at a position, a
multiple of the unit of its format (`Floating.StandsAt`), and the magnitude of a difference is
rounded from the difference of the positions.  Numbers whose positions are equally far apart
therefore have the same gap.  That a distance is the same in both senses is the first use of this.
-/

namespace PointerMotion

namespace Coord

open Floating (Format)

/-- Every coordinate is a finite number in double precision. -/
theorem standsAt_toDouble (c : Coord) : c.toDouble.StandsAt (Format.binary64.nearestInt c.val) := by
  refine Floating.standsAt_ofInt ?_
  exact Format.nearest_mul_unit_lt_bound (show c.val.natAbs ≤ 2 ^ 63 from c.natAbs_val_le)
    (by decide)

/-- The two coordinates of a pair are as far from each other, in double precision, as those of
another pair. -/
def SameGap (a b a' b' : Coord) : Prop :=
  b'.toDouble - a'.toDouble = b.toDouble - a.toDouble ∨
    b'.toDouble - a'.toDouble = -(b.toDouble - a.toDouble)

/-- The gap depends on how far apart the rounded coordinates are. -/
theorem sameGap_of_natAbs_eq {a b a' b' : Coord}
    (h : (Format.binary64.nearestInt b'.val - Format.binary64.nearestInt a'.val).natAbs =
      (Format.binary64.nearestInt b.val - Format.binary64.nearestInt a.val).natAbs) :
    SameGap a b a' b' :=
  b.standsAt_toDouble.sub_eq_or_eq_neg a.standsAt_toDouble b'.standsAt_toDouble
    a'.standsAt_toDouble h

/-- Of two coordinates there is one gap, in both senses. -/
theorem sameGap_swap (a b : Coord) : SameGap a b b a :=
  sameGap_of_natAbs_eq (by omega)

end Coord

namespace Point

/-- A distance is made of the gaps between the coordinates. -/
theorem distance_eq_of_sameGap {p q p' q' : Point} (hx : Coord.SameGap p.x q.x p'.x q'.x)
    (hy : Coord.SameGap p.y q.y p'.y q'.y) : p'.distance q' = p.distance q := by
  rw [distance, distance]
  rcases hx with hx | hx <;> rcases hy with hy | hy <;>
    simp only [hx, hy, Floating.hypot_neg_left, Floating.hypot_neg_right]

/-- **Distances are symmetric.** -/
theorem distance_comm (p q : Point) : p.distance q = q.distance p :=
  distance_eq_of_sameGap (q.x.sameGap_swap p.x) (q.y.sameGap_swap p.y)

end Point
end PointerMotion
