import PointerMotion.Proofs.Geometry.Distance
import PointerMotion.Proofs.Gesture.Building

/-!
# A pinch toward the corners is the reversal of one toward the center

Both pinches over an area run the same two paths, in opposite senses, and compute the paths in the
same way: so they fail together, and what they report before the fingers move is the same.  What
the moves report, and how long they take, depends on the path only through its length, which is the
same in both senses (`Point.distance_comm`).

The gestures are not mirror images of each other.  In both the pointer first stays where it touches
down, for the time a press needs to show; and only a pinch toward the center rests before the
pointers are lifted.
-/

namespace PointerMotion.Factory

open Gesture

variable (f : Factory) {area : Rect} {percent : Single}

/-! ## Pinches as runs -/

/-- A swipe is a wait and a move. -/
theorem swipe_value_eq (p q : Point) (speed : UInt32) : (f.swipe p q speed).value =
    ⟨p, .zero, [.pause p f.settings.pressed, .move p q (travelTime (p.distance q) speed).value]⟩ :=
  rfl

theorem swipe_records (p q : Point) (speed : UInt32) :
    (f.swipe p q speed).records = (travelTime (p.distance q) speed).records := by
  rw [swipe, moveAtSpeed, click, clickFor, finish_pause, finish_touch, Logged.records_bind,
    Logged.records_pure, List.append_nil]

theorem pinchPath_of_error {e : Overflow} (h : PinchPath.over area percent = .error e) :
    pinchPath area percent = ⟨(reportPercent percent).records, .error e⟩ := by
  simp only [pinchPath, h, Traced.lift_logged, Traced.lift_except, Traced.ok_bind,
    Traced.error_bind, List.append_nil]

theorem pinchPath_of_ok {path : PinchPath} (h : PinchPath.over area percent = .ok path) :
    pinchPath area percent = ⟨(reportPercent percent).records ++ [.pinch area path], .ok path⟩ := by
  rw [pinchPath, h, Traced.lift_logged, Traced.lift_except, Traced.ok_bind, Traced.ok_bind,
    Traced.lift_logged, Traced.ok_bind, Traced.pure_def, Logged.records_report, List.append_nil,
    List.nil_append]

/-- A pinch whose paths cannot be computed stops before it reports them. -/
theorem perform_pinch_of_error {e : Overflow} (h : PinchPath.over area percent = .error e)
    (speed : UInt32) :
    f.perform (.pinchOpen area percent speed) = ⟨(reportPercent percent).records, .error e⟩ ∧
      f.perform (.pinchClose area percent speed) =
        ⟨(reportPercent percent).records, .error e⟩ := by
  simp only [perform, pinchOpen, pinchClose, pinchPath_of_error h, Traced.error_bind, and_self]

/-- A pinch toward the corners reports its paths, and then what two swipes from the center
report. -/
theorem perform_pinchOpen_of_ok {path : PinchPath} (h : PinchPath.over area percent = .ok path)
    (speed : UInt32) : f.perform (.pinchOpen area percent speed) =
      ⟨(reportPercent percent).records ++ [.pinch area path] ++
        ((f.swipe path.bottomLeft.inner path.bottomLeft.outer speed).records ++
          (f.swipe path.topRight.inner path.topRight.outer speed).records),
      .ok [(f.swipe path.bottomLeft.inner path.bottomLeft.outer speed).value,
        (f.swipe path.topRight.inner path.topRight.outer speed).value]⟩ := by
  simp only [perform, pinchOpen, pinchPath_of_ok h, Traced.lift_logged, Traced.ok_bind,
    Traced.pure_def, List.append_nil]

/-- A pinch toward the center reports its paths, and then what two swipes from the corners
report. -/
theorem perform_pinchClose_of_ok {path : PinchPath} (h : PinchPath.over area percent = .ok path)
    (speed : UInt32) : f.perform (.pinchClose area percent speed) =
      ⟨(reportPercent percent).records ++ [.pinch area path] ++
        ((f.swipe path.bottomLeft.outer path.bottomLeft.inner speed).records ++
          (f.swipe path.topRight.outer path.topRight.inner speed).records),
      .ok [(f.swipe path.bottomLeft.outer path.bottomLeft.inner speed).value.pause pinchRest,
        (f.swipe path.topRight.outer path.topRight.inner speed).value.pause pinchRest]⟩ := by
  simp only [perform, pinchClose, pinchPath_of_ok h, Traced.lift_logged, Traced.ok_bind,
    Traced.pure_def, List.append_nil]

/-! ## Reversals -/

/-- The first gesture goes the way of the second one back.  Both stay at their start as long as a
click, the moves take the same time, and only the second one rests at its end. -/
def IsReversal (opened closed : Gesture) : Prop :=
  ∃ travel : Duration,
    opened.actions =
      [.pause opened.start f.settings.pressed, .move opened.start opened.finish travel] ∧
    closed.actions =
      [.pause closed.start f.settings.pressed, .move closed.start closed.finish travel,
        .pause closed.finish (.ofMillis 250)] ∧
    opened.start = closed.finish ∧ opened.finish = closed.start ∧
    closed.duration = opened.duration + .ofMillis 250

/-- A swipe back is the reversal of a swipe that rests at its end. -/
theorem isReversal_swipe (p q : Point) (speed : UInt32) :
    f.IsReversal (f.swipe q p speed).value ((f.swipe p q speed).value.pause pinchRest) := by
  rw [swipe_value_eq, swipe_value_eq, Point.distance_comm q p]
  generalize (travelTime (p.distance q) speed).value = travel
  exact ⟨travel, rfl, rfl, rfl, rfl, duration_append _⟩

/-- **A pinch toward the corners is the reversal of one toward the center.**  Both leave the same
records, and either both fail, in the same way, or each finger of the first goes the way of the
same finger of the second one back. -/
theorem pinchOpen_isReversal_pinchClose (area : Rect) (percent : Single) (speed : UInt32) :
    (f.perform (.pinchOpen area percent speed)).records =
        (f.perform (.pinchClose area percent speed)).records ∧
      ((∃ e, (f.perform (.pinchOpen area percent speed)).outcome = .error e ∧
          (f.perform (.pinchClose area percent speed)).outcome = .error e) ∨
        ∃ opened closed : Gesture × Gesture,
          (f.perform (.pinchOpen area percent speed)).outcome = .ok [opened.1, opened.2] ∧
          (f.perform (.pinchClose area percent speed)).outcome = .ok [closed.1, closed.2] ∧
          f.IsReversal opened.1 closed.1 ∧ f.IsReversal opened.2 closed.2) := by
  cases hpath : PinchPath.over area percent with
  | error e =>
    obtain ⟨hopening, hclosing⟩ := f.perform_pinch_of_error hpath speed
    rw [hopening, hclosing]
    exact ⟨rfl, .inl ⟨e, rfl, rfl⟩⟩
  | ok path =>
    rw [f.perform_pinchOpen_of_ok hpath speed, f.perform_pinchClose_of_ok hpath speed]
    refine ⟨?_, .inr ⟨(_, _), (_, _), rfl, rfl, f.isReversal_swipe _ _ speed,
      f.isReversal_swipe _ _ speed⟩⟩
    -- the moves report their distances, which are the same in both senses
    rw [swipe_records, swipe_records, swipe_records, swipe_records, Point.distance_comm,
      Point.distance_comm path.topRight.inner]

end PointerMotion.Factory
