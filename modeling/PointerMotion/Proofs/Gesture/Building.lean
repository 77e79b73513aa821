import PointerMotion.Factory

/-!
# Gestures as runs of steps

Every gesture of the factory is a touch and a few steps after it.  `Gesture.build` runs steps and
disregards what they report, and `Factory.exists_eq_build_answers` says of every request that is
answered which gestures these are: a property that a touch has and that a step keeps is a property
of everything the factory makes.  The steps are waits, which are known from the request and the
settings (`Factory.waits`), and moves at the speed of the request.
-/

namespace PointerMotion

namespace Gesture

variable (g : Gesture)

/-- The gesture after steps, without what they report. -/
def build (steps : List Step) : Gesture := steps.foldl (fun g s => (g.step s).value) g

@[simp] theorem build_nil : g.build [] = g := rfl

@[simp] theorem build_cons (s : Step) (steps : List Step) :
    g.build (s :: steps) = (g.step s).value.build steps := rfl

theorem build_concat (steps : List Step) (s : Step) :
    g.build (steps ++ [s]) = ((g.build steps).step s).value := by
  rw [build, List.foldl_append]
  rfl

/-- Where a step takes the pointer, if it is a move. -/
def Step.target? : Step → Option Point
  | .pause _ => none
  | .moveTo target _ => some target
  | .moveAtSpeed target _ => some target

/-- **A step is one more action**, which begins where the gesture ended, and ends where the step
takes the pointer. -/
theorem exists_step_eq_append (s : Step) : ∃ a,
    (g.step s).value = g.append a ∧ a.start = g.finish ∧
      a.finish = s.target?.getD g.finish := by
  cases s with
  | pause d => exact ⟨.pause g.finish d, rfl, rfl, rfl⟩
  | moveTo target d => exact ⟨.move g.finish target d, rfl, rfl, rfl⟩
  | moveAtSpeed target speed => exact ⟨.move g.finish target _, rfl, rfl, rfl⟩

end Gesture

namespace Factory

open Gesture

variable (f : Factory)

theorem swipe_value (start finish : Point) (speed : UInt32) :
    (f.swipe start finish speed).value =
      (touch start).build [.pause f.settings.pressed, .moveAtSpeed finish speed] := rfl

@[simp] theorem finish_swipe (start finish : Point) (speed : UInt32) :
    (f.swipe start finish speed).value.finish = finish := finish_moveAtSpeed finish speed

theorem swipe_pause_value (start finish : Point) (speed : UInt32) (d : Duration) :
    (f.swipe start finish speed).value.pause d =
      (touch start).build [.pause f.settings.pressed, .moveAtSpeed finish speed, .pause d] := by
  rw [swipe_value]
  exact ((touch start).build_concat [_, _] (.pause d)).symm

theorem drag_value (start finish : Point) (speed : UInt32) :
    (f.drag start finish speed).value =
      (touch start).build [.pause f.settings.longPress, .moveAtSpeed finish speed] := rfl

variable (area : Rect) (percent : Single) (speed : UInt32)

/-- A swipe over an area is a swipe between the two ends, if they can be computed. -/
theorem swipeOver_outcome (direction : Direction) :
    (f.swipeOver area direction percent speed).outcome =
      (area.swipeEnds direction percent).map fun ends => (f.swipe ends.1 ends.2 speed).value := by
  rw [swipeOver, Traced.outcome_bind]
  cases h : area.swipeEnds direction percent with
  | error e => rfl
  | ok ends => rfl

theorem pinchPath_outcome : (pinchPath area percent).outcome = PinchPath.over area percent := by
  rw [pinchPath, Traced.outcome_bind]
  cases PinchPath.over area percent with
  | error e => rfl
  | ok path => rfl

/-- In a pinch toward the center, two fingers swipe from the corners, and rest. -/
theorem pinchClose_outcome : (f.pinchClose area percent speed).outcome =
    (PinchPath.over area percent).map fun path =>
      ((f.swipe path.bottomLeft.outer path.bottomLeft.inner speed).value.pause pinchRest,
        (f.swipe path.topRight.outer path.topRight.inner speed).value.pause pinchRest) := by
  rw [pinchClose, Traced.outcome_bind, pinchPath_outcome]
  cases PinchPath.over area percent with
  | error e => rfl
  | ok path => rfl

/-- In a pinch toward the corners, two fingers swipe from the center. -/
theorem pinchOpen_outcome : (f.pinchOpen area percent speed).outcome =
    (PinchPath.over area percent).map fun path =>
      ((f.swipe path.bottomLeft.inner path.bottomLeft.outer speed).value,
        (f.swipe path.topRight.inner path.topRight.outer speed).value) := by
  rw [pinchOpen, Traced.outcome_bind, pinchPath_outcome]
  cases PinchPath.over area percent with
  | error e => rfl
  | ok path => rfl

variable {area percent speed} {gestures : List Gesture}

/-- **When a swipe over an area is answered**, and by which gesture. -/
theorem perform_swipeOver_eq_ok_iff {direction : Direction} :
    (f.perform (.swipeOver area direction percent speed)).outcome = .ok gestures ↔
      ∃ p q, area.swipeEnds direction percent = .ok (p, q) ∧
        gestures = [(f.swipe p q speed).value] := by
  rw [perform, Traced.outcome_bind, swipeOver_outcome]
  cases area.swipeEnds direction percent with
  | error e => simp [Except.map, Except.bind]
  | ok ends =>
    constructor
    · rintro h
      exact ⟨ends.1, ends.2, rfl, (Except.ok.inj h).symm⟩
    · rintro ⟨p, q, hends, rfl⟩
      cases hends
      rfl

/-- **When a pinch toward the center is answered**, and by which gestures. -/
theorem perform_pinchClose_eq_ok_iff :
    (f.perform (.pinchClose area percent speed)).outcome = .ok gestures ↔
      ∃ path, PinchPath.over area percent = .ok path ∧ gestures =
        [(f.swipe path.bottomLeft.outer path.bottomLeft.inner speed).value.pause pinchRest,
          (f.swipe path.topRight.outer path.topRight.inner speed).value.pause pinchRest] := by
  rw [perform, Traced.outcome_bind, pinchClose_outcome]
  cases PinchPath.over area percent with
  | error e => simp [Except.map, Except.bind]
  | ok path => simp [Except.map, Except.bind, eq_comm]

/-- **When a pinch toward the corners is answered**, and by which gestures. -/
theorem perform_pinchOpen_eq_ok_iff :
    (f.perform (.pinchOpen area percent speed)).outcome = .ok gestures ↔
      ∃ path, PinchPath.over area percent = .ok path ∧ gestures =
        [(f.swipe path.bottomLeft.inner path.bottomLeft.outer speed).value,
          (f.swipe path.topRight.inner path.topRight.outer speed).value] := by
  rw [perform, Traced.outcome_bind, pinchOpen_outcome]
  cases PinchPath.over area percent with
  | error e => simp [Except.map, Except.bind]
  | ok path => simp [Except.map, Except.bind, eq_comm]

/-! ## What the factory answers with -/

/-- The speed at which a request has the pointer move, if it does. -/
def Request.speed? : Request → Option UInt32
  | .click _ | .clickFor .. | .longClick _ => none
  | .swipe _ _ speed | .drag _ _ speed | .swipeOver _ _ _ speed | .pinchClose _ _ speed
  | .pinchOpen _ _ speed => some speed

/-- How long the pointer may stay at a point in an answer to a request. -/
def waits : Request → List Duration
  | .clickFor _ d => [d]
  | .longClick _ | .drag .. => [f.settings.longPress]
  | .click _ | .swipe .. | .swipeOver .. | .pinchOpen .. => [f.settings.pressed]
  | .pinchClose .. => [f.settings.pressed, pinchRest]

/-- A step in an answer to a request: one of the waits, or a move at the speed. -/
def Answers (request : Request) : Step → Prop
  | .pause d => d ∈ f.waits request
  | .moveTo .. => False
  | .moveAtSpeed _ speed => speed ∈ request.speed?

/-- **Every gesture of the factory is a touch and steps that answer the request.** -/
theorem exists_eq_build_answers {request : Request} {gestures : List Gesture}
    (h : (f.perform request).outcome = .ok gestures) :
    ∀ g ∈ gestures, ∃ start steps, g = (touch start).build steps ∧
      ∀ s ∈ steps, f.Answers request s := by
  cases request with
  | click point =>
    cases h
    refine List.forall_mem_singleton.2 ⟨point, [.pause f.settings.pressed], rfl, ?_⟩
    simp [Answers, waits]
  | clickFor point d =>
    cases h
    refine List.forall_mem_singleton.2 ⟨point, [.pause d], rfl, ?_⟩
    simp [Answers, waits]
  | longClick point =>
    cases h
    refine List.forall_mem_singleton.2 ⟨point, [.pause f.settings.longPress], rfl, ?_⟩
    simp [Answers, waits]
  | swipe start finish speed =>
    cases h
    refine List.forall_mem_singleton.2 ⟨start, _, f.swipe_value start finish speed, ?_⟩
    simp [Answers, waits, Request.speed?]
  | drag start finish speed =>
    cases h
    refine List.forall_mem_singleton.2 ⟨start, _, f.drag_value start finish speed, ?_⟩
    simp [Answers, waits, Request.speed?]
  | swipeOver area direction percent speed =>
    obtain ⟨p, q, -, rfl⟩ := f.perform_swipeOver_eq_ok_iff.1 h
    refine List.forall_mem_singleton.2 ⟨p, _, f.swipe_value p q speed, ?_⟩
    simp [Answers, waits, Request.speed?]
  | pinchClose area percent speed =>
    obtain ⟨path, -, rfl⟩ := f.perform_pinchClose_eq_ok_iff.1 h
    refine List.forall_mem_cons.2 ⟨⟨_, _, f.swipe_pause_value _ _ speed pinchRest, ?_⟩,
      List.forall_mem_singleton.2 ⟨_, _, f.swipe_pause_value _ _ speed pinchRest, ?_⟩⟩
    · simp [Answers, waits, Request.speed?]
    · simp [Answers, waits, Request.speed?]
  | pinchOpen area percent speed =>
    obtain ⟨path, -, rfl⟩ := f.perform_pinchOpen_eq_ok_iff.1 h
    refine List.forall_mem_cons.2 ⟨⟨_, _, f.swipe_value _ _ speed, ?_⟩,
      List.forall_mem_singleton.2 ⟨_, _, f.swipe_value _ _ speed, ?_⟩⟩
    · simp [Answers, waits, Request.speed?]
    · simp [Answers, waits, Request.speed?]

theorem exists_eq_build {request : Request} {gestures : List Gesture}
    (h : (f.perform request).outcome = .ok gestures) :
    ∀ g ∈ gestures, ∃ start steps, g = (touch start).build steps := by
  intro g hg
  obtain ⟨start, steps, hbuild, -⟩ := f.exists_eq_build_answers h g hg
  exact ⟨start, steps, hbuild⟩

end Factory
end PointerMotion
