import PointerMotion.Floating.Shortest
import PointerMotion.Geometry.Direction
import PointerMotion.Geometry.PinchPath
import PointerMotion.Geometry.Rect

/-!
# Trace records

What the library reports while it builds gestures.  A record holds the values it is about; its
level and its wording are functions of it.
-/

namespace PointerMotion

/-- How much a record matters. -/
inductive Level where
  | warn
  | debug
  deriving DecidableEq, Repr

/-- What can be reported. -/
inductive Record where
  /-- A percentage was not between zero and one. -/
  | percentOutsideUnit (percent : Single)
  /-- A move over some distance has speed zero. -/
  | endlessMove (distance : Double)
  /-- The ends of a swipe over an area were found. -/
  | swipe (direction : Direction) (area : Rect) (start finish : Point)
  /-- The paths of a pinch over an area were found. -/
  | pinch (area : Rect) (path : PinchPath)
  deriving DecidableEq

namespace Record

/-- A record of something that the caller should not have asked for is a warning. -/
def level : Record → Level
  | percentOutsideUnit _ | endlessMove _ => .warn
  | swipe .. | pinch .. => .debug

/-- A point field by field. -/
def fieldsOfPoint (p : Point) : String :=
  s!"PointI \x7b x: {p.x.text}, y: {p.y.text} \x7d"

/-- A finger's path field by field. -/
def fieldsOfFinger (f : FingerPath) : String :=
  s!"FingerPath \x7b outer: {fieldsOfPoint f.outer}, inner: {fieldsOfPoint f.inner} \x7d"

/-- The wording of a record. -/
def text : Record → String
  | percentOutsideUnit percent =>
    s!"Gesture percentage is expected to be in the 0.0..1.0 range, was: {percent.text}"
  | endlessMove distance =>
    s!"Pointer move over {distance.text} pixels at speed 0, it will never finish"
  | swipe direction area start finish =>
    s!"Swipe {direction.name} over {area.text}: {start.text} -> {finish.text}"
  | pinch area path =>
    s!"Pinch coordinates over {area.text}: PinchCoordinates \x7b " ++
      s!"bottom_left: {fieldsOfFinger path.bottomLeft}, " ++
      s!"top_right: {fieldsOfFinger path.topRight} \x7d"

end Record
end PointerMotion
