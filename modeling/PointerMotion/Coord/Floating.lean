import PointerMotion.Coord
import PointerMotion.Floating.Value

/-!
# Coordinates as floating-point numbers and back

A coordinate becomes the nearest value of a format.  A value becomes the coordinate that is its
integer part, or the first or last coordinate beyond it; both directions are total, and only the
second loses more than rounding does.
-/

namespace PointerMotion.Coord

/-- The value of a format nearest to a coordinate. -/
def toFloating (F : Floating.Format) (c : Coord) : Floating F := .ofInt F c.val

/-- The coordinate at a value, cut toward zero and brought into range. -/
def ofFloating {F : Floating.Format} (x : Floating F) : Coord :=
  .clamp (x.truncate (-9223372036854775808) 9223372036854775807)

theorem val_ofFloating {F : Floating.Format} (x : Floating F) :
    (ofFloating x).val = x.truncate (-9223372036854775808) 9223372036854775807 := by
  obtain ⟨h₁, h₂⟩ := x.truncate_mem (show -9223372036854775808 ≤ (0 : Int) by decide)
    (show (0 : Int) ≤ 9223372036854775807 by decide)
  exact clamp_of_inRange ⟨h₁, by omega⟩

/-- The value of double precision nearest to a coordinate. -/
abbrev toDouble (c : Coord) : Double := c.toFloating .binary64

/-- The value of single precision nearest to a coordinate. -/
abbrev toSingle (c : Coord) : Single := c.toFloating .binary32

end PointerMotion.Coord
