import PointerMotion.Factory.Extent
import PointerMotion.Gesture
import PointerMotion.Settings

/-!
# The factory of common gestures

Clicks, swipes, drags and pinches, from the timings of a platform.  Everything is built from
touches, pauses and moves; what the factory adds is where they go and how long they wait.

Gestures between given points cannot fail.  Gestures over an area compute their points from its
edges and may leave the range of coordinates; their trace is a warning about the percentage, if
it is outside `0 ≤ p ≤ 1`, then the points, then whatever the moves have to report.  A failure
happens before the points are reported.
-/

namespace PointerMotion

/-- A factory for the gestures of one platform. -/
structure Factory where
  settings : Settings := {}

namespace Factory

/-- How long the fingers rest after a pinch toward the center, before they are lifted. -/
def pinchRest : Duration := .ofMillis 250

variable (f : Factory)

/-- A touch at a point for the given time. -/
def clickFor (point : Point) (d : Duration) : Gesture := (Gesture.touch point).pause d

/-- A touch at a point, as long as it takes to show as a press. -/
def click (point : Point) : Gesture := clickFor point f.settings.pressed

/-- A touch at a point, as long as it takes to count as a long press. -/
def longClick (point : Point) : Gesture := clickFor point f.settings.longPress

/-- A click that moves to another point before the pointer is lifted. -/
def swipe (start finish : Point) (speed : UInt32) : Logged Gesture :=
  (f.click start).moveAtSpeed finish speed

/-- A long click that moves to another point before the pointer is lifted. -/
def drag (start finish : Point) (speed : UInt32) : Logged Gesture :=
  (f.longClick start).moveAtSpeed finish speed

/-- Report a percentage that is not between zero and one. -/
def reportPercent (percent : Single) : Logged Unit :=
  if IsUnit percent then pure () else .report (.percentOutsideUnit percent)

/-- A swipe over an area, from the edge opposite to its direction. -/
def swipeOver (area : Rect) (direction : Direction) (percent : Single) (speed : UInt32) :
    Traced Gesture := do
  reportPercent percent
  let (start, finish) ← area.swipeEnds direction percent
  Logged.report (.swipe direction area start finish)
  f.swipe start finish speed

/-- The paths of a pinch over an area, reported. -/
def pinchPath (area : Rect) (percent : Single) : Traced PinchPath := do
  reportPercent percent
  let path ← PinchPath.over area percent
  Logged.report (.pinch area path)
  return path

/-- Two fingers from the corners of an area toward its center. -/
def pinchClose (area : Rect) (percent : Single) (speed : UInt32) : Traced (Gesture × Gesture) := do
  let path ← pinchPath area percent
  let bottomLeft ← f.swipe path.bottomLeft.outer path.bottomLeft.inner speed
  let topRight ← f.swipe path.topRight.outer path.topRight.inner speed
  return (bottomLeft.pause pinchRest, topRight.pause pinchRest)

/-- Two fingers from the center of an area toward its corners. -/
def pinchOpen (area : Rect) (percent : Single) (speed : UInt32) : Traced (Gesture × Gesture) := do
  let path ← pinchPath area percent
  let bottomLeft ← f.swipe path.bottomLeft.inner path.bottomLeft.outer speed
  let topRight ← f.swipe path.topRight.inner path.topRight.outer speed
  return (bottomLeft, topRight)

/-- What can be asked of a factory. -/
inductive Request where
  | click (point : Point)
  | clickFor (point : Point) (duration : Duration)
  | longClick (point : Point)
  | swipe (start finish : Point) (speed : UInt32)
  | drag (start finish : Point) (speed : UInt32)
  | swipeOver (area : Rect) (direction : Direction) (percent : Single) (speed : UInt32)
  | pinchClose (area : Rect) (percent : Single) (speed : UInt32)
  | pinchOpen (area : Rect) (percent : Single) (speed : UInt32)
  deriving DecidableEq

/-- The gestures that answer a request, the finger at the bottom left first if there are two. -/
def perform : Request → Traced (List Gesture)
  | .click point => return [f.click point]
  | .clickFor point d => return [clickFor point d]
  | .longClick point => return [f.longClick point]
  | .swipe start finish speed => return [← f.swipe start finish speed]
  | .drag start finish speed => return [← f.drag start finish speed]
  | .swipeOver area direction percent speed =>
    return [← f.swipeOver area direction percent speed]
  | .pinchClose area percent speed => do
    let (bottomLeft, topRight) ← f.pinchClose area percent speed
    return [bottomLeft, topRight]
  | .pinchOpen area percent speed => do
    let (bottomLeft, topRight) ← f.pinchOpen area percent speed
    return [bottomLeft, topRight]

end Factory
end PointerMotion
