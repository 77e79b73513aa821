import PointerMotion.Geometry.Point

/-!
# The paths of a pinch

Two fingers take part in a pinch.  Each has a path between a point near a corner of the pinched
area and a point near its center; a pinch runs both paths in the same sense.
-/

namespace PointerMotion

/-- The path of one finger: `outer` is near a corner, `inner` is near the center. -/
structure FingerPath where
  outer : Point
  inner : Point
  deriving DecidableEq, Repr

/-- The paths of the two fingers of a pinch. -/
structure PinchPath where
  bottomLeft : FingerPath
  topRight : FingerPath
  deriving DecidableEq, Repr

end PointerMotion
