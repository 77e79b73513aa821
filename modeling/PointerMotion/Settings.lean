import PointerMotion.Duration

/-!
# The timings gestures depend on

Two durations belong to the platform rather than to a gesture: how long a press must last to
count as long, and how long a click must last to show as a press.
-/

namespace PointerMotion

/-- The timings of a platform. -/
structure Settings where
  /-- A press of at least this duration is a long press. -/
  longPress : Duration := .ofMillis 400
  /-- A click lasts this long, so that its target shows as pressed. -/
  pressed : Duration := .ofMillis 64
  deriving DecidableEq, Repr

instance : Inhabited Settings := ⟨{}⟩

end PointerMotion
