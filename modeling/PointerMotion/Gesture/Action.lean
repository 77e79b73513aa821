import PointerMotion.Duration
import PointerMotion.Geometry.Point

/-!
# Actions of a pointer

While it is down, a pointer stays at a point for some time, or moves along a straight line in
some time.  Where it is in the course of an action depends on the fraction of the time that has
passed, which is a floating-point number.

A coordinate between two others is found in three steps: their difference, which is checked; the
fraction of it, added to the first coordinate; and the integer part of the sum.  The product and
the sum are floating-point operations, each rounded.
-/

namespace PointerMotion

/-- The coordinate at a fraction of the way from `a` to `b`. -/
def Coord.between (a b : Coord) (fraction : Double) : Except Overflow Coord := do
  let way ← b.sub a
  return .ofFloating (a.toDouble + way.toDouble * fraction)

/-- One stretch of a gesture. -/
inductive Action where
  /-- The pointer stays where it is. -/
  | pause (point : Point) (duration : Duration)
  /-- The pointer moves along a straight line. -/
  | move (origin target : Point) (duration : Duration)
  deriving DecidableEq, Repr

namespace Action

/-- Where the pointer is when the action begins. -/
def start : Action → Point
  | pause point _ => point
  | move origin _ _ => origin

/-- Where the pointer is when the action is over. -/
def finish : Action → Point
  | pause point _ => point
  | move _ target _ => target

/-- How long the action takes. -/
def duration : Action → Duration
  | pause _ duration => duration
  | move _ _ duration => duration

/-- Where the pointer is when the given fraction of the duration has passed. -/
def pointAt (a : Action) (fraction : Double) : Except Overflow Point := do
  return ⟨← a.start.x.between a.finish.x fraction, ← a.start.y.between a.finish.y fraction⟩

end Action
end PointerMotion
