import PointerMotion.Geometry.PinchPath
import PointerMotion.Geometry.Direction
import PointerMotion.Geometry.Rect

/-!
# Where the gestures over an area begin and end

A swipe over an area crosses part of its width or height; a pinch runs between points near two
corners and points near the center.  In both, the part of an extent is a percentage of it,
computed in single precision and cut to a coordinate.

The percentage is taken as it is: outside `0 ≤ p ≤ 1` the points lie outside the area, or on the
wrong side, and one that is not a number moves nothing.  What can go wrong is arithmetic on
coordinates only.
-/

namespace PointerMotion

/-- A percentage between zero and one. -/
def IsUnit (percent : Single) : Prop := .ofNat .binary32 0 ≤ percent ∧ percent ≤ .ofNat .binary32 1

instance (percent : Single) : Decidable (IsUnit percent) := inferInstanceAs (Decidable (_ ∧ _))

/-- A percentage of an extent, cut toward zero. -/
def Coord.scaled (extent : Coord) (percent : Single) : Coord :=
  .ofFloating (extent.toSingle * percent)

/-- Where a swipe over `area` begins and ends.  It begins on the edge opposite to its direction,
halfway along that edge. -/
def Rect.swipeEnds (area : Rect) (direction : Direction) (percent : Single) :
    Except Overflow (Point × Point) :=
  match direction with
  | .left => do
    let start : Point := ⟨area.right, ← area.centerY⟩
    let back ← ((← area.width).scaled percent).neg
    return (start, ← start.offset back 0)
  | .right => do
    let start : Point := ⟨area.left, ← area.centerY⟩
    let ahead := (← area.width).scaled percent
    return (start, ← start.offset ahead 0)
  | .up => do
    let start : Point := ⟨← area.centerX, area.bottom⟩
    let back ← ((← area.height).scaled percent).neg
    return (start, ← start.offset 0 back)
  | .down => do
    let start : Point := ⟨← area.centerX, area.top⟩
    let ahead := (← area.height).scaled percent
    return (start, ← start.offset 0 ahead)

/-- How far the fingers of a pinch stay from the edges of the area. -/
def pinchMargin : Coord := 5

/-- Both margins of an extent together. -/
def pinchMargins : Coord := 10

/-- How far a finger travels along an axis of the given extent, for a percentage: half of what
the margins leave is cut to a coordinate before the percentage is taken. -/
def pinchTravel (extent : Coord) (percent : Single) : Except Overflow Coord := do
  return (← extent.sub pinchMargins).halfTowardZero.scaled percent

/-- The paths of a pinch over `area`. -/
def PinchPath.over (area : Rect) (percent : Single) : Except Overflow PinchPath := do
  let dx ← pinchTravel (← area.width) percent
  let dy ← pinchTravel (← area.height) percent
  let inset ← area.withInset pinchMargin pinchMargin
  return {
    bottomLeft := ⟨inset.leftBottom, ← inset.leftBottom.offset dx (← dy.neg)⟩
    topRight := ⟨inset.rightTop, ← inset.rightTop.offset (← dx.neg) dy⟩
  }

end PointerMotion
