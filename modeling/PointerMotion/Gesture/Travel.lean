import PointerMotion.Duration
import PointerMotion.Trace

/-!
# How long a move takes

A move over a distance at a speed in pixels per second takes a whole number of milliseconds: the
quotient is cut, not rounded.  Two cases come first, in this order.  A move over no distance takes
no time, at any speed.  A move over some distance at speed zero never ends; it has the longest
duration, and is reported.
-/

namespace PointerMotion

/-- The milliseconds for a distance at a speed, as a floating-point number. -/
def travelMillis (distance : Double) (speed : UInt32) : Double :=
  .ofNat .binary64 1000 * distance / .ofNat .binary64 speed.toNat

/-- The time for a distance at a speed. -/
def travelTime (distance : Double) (speed : UInt32) : Logged Duration :=
  if distance.IsZero then
    pure .zero
  else if speed = 0 then do
    .report (.endlessMove distance)
    return .longest
  else
    return .ofMillis ((travelMillis distance speed).truncate 0 Duration.greatestWritten).toNat

variable {distance : Double} {speed : UInt32}

theorem travelTime_of_isZero (h : distance.IsZero) : travelTime distance speed = pure .zero :=
  if_pos h

theorem travelTime_speed_zero (h : ¬ distance.IsZero) :
    travelTime distance 0 = ⟨[.endlessMove distance], .longest⟩ := by
  rw [travelTime, if_neg h, if_pos rfl]
  rfl

theorem travelTime_of_ne (h : ¬ distance.IsZero) (hspeed : speed ≠ 0) :
    travelTime distance speed =
      pure (.ofMillis ((travelMillis distance speed).truncate 0 Duration.greatestWritten).toNat) := by
  rw [travelTime, if_neg h, if_neg hspeed]

end PointerMotion
