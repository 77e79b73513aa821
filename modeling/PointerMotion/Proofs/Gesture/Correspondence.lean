import Mathlib.Data.List.Forall2
import PointerMotion.Factory

/-!
# Gestures that differ in their points only

Two gestures correspond if they have the same delay and the same sequence of actions, each of the
same kind and duration, and their points are related one by one.  The relation between points is
whatever is of interest: a shift, a mirror, an exchange of the axes.

Steps of the builder take corresponding gestures to corresponding ones.  A wait does so because it
stays where the gesture ends; a move at a speed asks in addition that its way is as long in one
gesture as in the other, because its time depends on the distance.
-/

namespace PointerMotion

/-- Actions of the same kind and duration, between related points. -/
inductive Action.Corresponds (R : Point → Point → Prop) : Action → Action → Prop where
  | pause {p p' : Point} (h : R p p') (d : Duration) : Corresponds R (pause p d) (pause p' d)
  | move {p q p' q' : Point} (hp : R p p') (hq : R q q') (d : Duration) :
    Corresponds R (move p q d) (move p' q' d)

namespace Gesture

variable {R : Point → Point → Prop} {g g' : Gesture}

/-- Gestures that have the same delay, and corresponding actions between related points. -/
structure Corresponds (R : Point → Point → Prop) (g g' : Gesture) : Prop where
  start : R g.start g'.start
  delay : g'.delay = g.delay
  actions : List.Forall₂ (Action.Corresponds R) g.actions g'.actions

theorem corresponds_touch {p p' : Point} (h : R p p') : (touch p).Corresponds R (touch p') :=
  ⟨h, rfl, .nil⟩

theorem Corresponds.append (h : g.Corresponds R g') {a a' : Action} (ha : a.Corresponds R a') :
    (g.append a).Corresponds R (g'.append a') :=
  ⟨h.start, h.delay, List.rel_append h.actions (.cons ha .nil)⟩

theorem Corresponds.pause (h : g.Corresponds R g') (hfinish : R g.finish g'.finish)
    (d : Duration) : (g.pause d).Corresponds R (g'.pause d) :=
  h.append (.pause hfinish d)

theorem Corresponds.moveAtSpeed (h : g.Corresponds R g') (hfinish : R g.finish g'.finish)
    {q q' : Point} (hq : R q q') (hd : g'.finish.distance q' = g.finish.distance q)
    (speed : UInt32) :
    (g.moveAtSpeed q speed).value.Corresponds R (g'.moveAtSpeed q' speed).value := by
  have hmove := Action.Corresponds.move hfinish hq
    (travelTime (g.finish.distance q) speed).value
  rw [Gesture.moveAtSpeed, Gesture.moveAtSpeed, hd]
  exact h.append hmove

end Gesture

namespace Factory

variable {R : Point → Point → Prop} (f : Factory) {p q p' q' : Point}

theorem corresponds_clickFor (hp : R p p') (d : Duration) :
    (clickFor p d).Corresponds R (clickFor p' d) :=
  (Gesture.corresponds_touch hp).pause hp d

/-- Swipes between related points correspond, if they are equally long. -/
theorem corresponds_swipe (hp : R p p') (hq : R q q') (hd : p'.distance q' = p.distance q)
    (speed : UInt32) : (f.swipe p q speed).value.Corresponds R (f.swipe p' q' speed).value :=
  (corresponds_clickFor hp f.settings.pressed).moveAtSpeed hp hq hd speed

theorem corresponds_drag (hp : R p p') (hq : R q q') (hd : p'.distance q' = p.distance q)
    (speed : UInt32) : (f.drag p q speed).value.Corresponds R (f.drag p' q' speed).value :=
  (corresponds_clickFor hp f.settings.longPress).moveAtSpeed hp hq hd speed

end Factory
end PointerMotion
