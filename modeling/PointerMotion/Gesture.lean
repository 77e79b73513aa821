import PointerMotion.Gesture.Action
import PointerMotion.Gesture.Travel

/-!
# Gestures

A gesture is the motion of one pointer.  The pointer touches down at `start`, after `delay`, runs
through its actions in order, and is lifted where the last of them ends.

A gesture is built by appending steps.  Each step begins where the gesture ends at that moment, so
the actions of a gesture built this way form a chain.  Nothing in the type asks for that, because
a gesture that was read from a document need not be one, and every function here says what it does
for such a gesture too.
-/

namespace PointerMotion

/-- The motion of one pointer. -/
structure Gesture where
  start : Point
  delay : Duration
  actions : List Action
  deriving DecidableEq, Repr

namespace Gesture

/-- The gesture that touches down at a point after some time, and does nothing else. -/
def touch (start : Point) (delay : Duration := .zero) : Gesture := ⟨start, delay, []⟩

variable (g : Gesture)

/-- Where the pointer is lifted. -/
def finish : Point :=
  match g.actions.getLast? with
  | some a => a.finish
  | none => g.start

/-- How long the pointer is down, without the delay. -/
def duration : Duration := g.actions.foldl (fun sum a => sum + a.duration) .zero

/-! ## Steps -/

/-- The gesture with one more action. -/
def append (a : Action) : Gesture := { g with actions := g.actions ++ [a] }

/-- The pointer stays where it is. -/
def pause (d : Duration) : Gesture := g.append (.pause g.finish d)

/-- The pointer moves to a point in the given time. -/
def moveTo (target : Point) (d : Duration) : Gesture := g.append (.move g.finish target d)

/-- The pointer moves to a point with `speed` pixels per second. -/
def moveAtSpeed (target : Point) (speed : UInt32) : Logged Gesture := do
  return g.moveTo target (← travelTime (g.finish.distance target) speed)

/-- A step of building a gesture. -/
inductive Step where
  | pause (duration : Duration)
  | moveTo (target : Point) (duration : Duration)
  | moveAtSpeed (target : Point) (speed : UInt32)
  deriving DecidableEq

/-- The gesture after one more step. -/
def step : Step → Logged Gesture
  | .pause d => return g.pause d
  | .moveTo target d => return g.moveTo target d
  | .moveAtSpeed target speed => g.moveAtSpeed target speed

/-! ## The pointer in the course of time -/

/-- The fraction of a duration that has passed after `t`. -/
def fraction (t d : Duration) : Double :=
  .ofNat .binary64 t.nanos / .ofNat .binary64 d.nanos

/-- Where a pointer is after `t`, as it runs through actions and ends at `finish`.  An action is
left as soon as its duration has passed, so one without duration is never seen. -/
def pointIn (finish : Point) : List Action → Duration → Except Overflow Point
  | [], _ => .ok finish
  | a :: rest, t =>
    if h : t < a.duration then
      a.pointAt (fraction t a.duration)
    else
      pointIn finish rest (t.since a.duration (Nat.le_of_not_lt h))

/-- Where the pointer is `t` after it touched down; where it was lifted, once it was. -/
def pointAt (t : Duration) : Except Overflow Point := pointIn g.finish g.actions t

variable {g}

@[simp] theorem finish_append (a : Action) : (g.append a).finish = a.finish := by
  simp [append, finish]

@[simp] theorem finish_touch (p : Point) (d : Duration) : (touch p d).finish = p := rfl

@[simp] theorem finish_pause (d : Duration) : (g.pause d).finish = g.finish := by
  simp [pause, Action.finish]

@[simp] theorem finish_moveTo (p : Point) (d : Duration) : (g.moveTo p d).finish = p := by
  simp [moveTo, Action.finish]

@[simp] theorem finish_moveAtSpeed (p : Point) (speed : UInt32) :
    (g.moveAtSpeed p speed).value.finish = p := by
  simp [moveAtSpeed]

theorem duration_append (a : Action) : (g.append a).duration = g.duration + a.duration := by
  simp [append, duration]

end Gesture
end PointerMotion
