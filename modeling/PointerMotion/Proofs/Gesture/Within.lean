import PointerMotion.Proofs.Gesture.Building
import PointerMotion.Proofs.Gesture.Timeline

/-!
# Where a gesture goes

A gesture is within a region if it starts there and all of its actions begin and end there.  A
step whose target is in the region keeps a gesture within it, so a whole run of steps is judged by
its start and its targets (`Within.build`).

What can fail at a time is the way of an action, the difference of its ends.  So a gesture has a
point at any time if each of its actions has a way (`exists_pointAt_eq_ok_of_hasWay`); one that is
within a region does, if there is a way between any two points of the region.
-/

namespace PointerMotion

/-- The difference of two points is made of coordinates. -/
structure Point.HasWay (p q : Point) : Prop where
  x : Coord.InRange (q.x.val - p.x.val)
  y : Coord.InRange (q.y.val - p.y.val)

namespace Gesture

/-- A gesture starts in a region, and its actions begin and end there. -/
structure Within (region : Point → Prop) (g : Gesture) : Prop where
  start : region g.start
  actions : ∀ a ∈ g.actions, region a.start ∧ region a.finish

variable {region : Point → Prop} {g : Gesture}

theorem within_touch {start : Point} (h : region start) (delay : Duration) :
    (touch start delay).Within region where
  start := h
  actions := by rintro a ⟨⟩

theorem Within.finish (h : g.Within region) : region g.finish := by
  cases hlast : g.actions.getLast? with
  | none =>
    rw [Gesture.finish, hlast]
    exact h.start
  | some a =>
    rw [Gesture.finish, hlast]
    exact (h.actions a (List.mem_of_getLast? hlast)).2

/-- A step whose target is in the region stays in it. -/
theorem Within.step (h : g.Within region) {s : Step} (hs : ∀ p ∈ s.target?, region p) :
    (g.step s).value.Within region := by
  obtain ⟨a, happend, hstart, hfinish⟩ := g.exists_step_eq_append s
  have ha : region a.start ∧ region a.finish := by
    refine ⟨hstart ▸ h.finish, ?_⟩
    rw [hfinish]
    cases htarget : s.target? with
    | none => exact h.finish
    | some p => exact hs p htarget
  rw [happend]
  refine ⟨h.start, fun b hb => ?_⟩
  rcases List.mem_append.1 hb with hb | hb
  · exact h.actions b hb
  · rw [List.mem_singleton.1 hb]
    exact ha

/-- Steps whose targets are in the region stay in it. -/
theorem Within.build (h : g.Within region) {steps : List Step}
    (hs : ∀ s ∈ steps, ∀ p ∈ s.target?, region p) : (g.build steps).Within region := by
  induction steps generalizing g with
  | nil => exact h
  | cons s steps ih =>
    obtain ⟨hfirst, hrest⟩ := List.forall_mem_cons.1 hs
    exact ih (h.step hfirst) hrest

/-- **A gesture whose actions have ways has a point at any time.** -/
theorem exists_pointAt_eq_ok_of_hasWay (h : ∀ a ∈ g.actions, a.start.HasWay a.finish)
    (t : Duration) : ∃ p, g.pointAt t = .ok p := by
  cases hpoint : g.pointAt t with
  | ok p => exact ⟨p, rfl⟩
  | error e =>
    obtain ⟨-, i, origin, target, d, hi, -, hrange⟩ := (g.pointAt_eq_error_iff t).1 hpoint
    obtain ⟨hx, hy⟩ := h _ (List.mem_of_getElem? hi)
    exact absurd hrange (not_or.2 ⟨not_not.2 hx, not_not.2 hy⟩)

/-- A gesture within a region has a point at any time, if the way between any two points of the
region is made of coordinates. -/
theorem Within.exists_pointAt_eq_ok (h : g.Within region)
    (hregion : ∀ p q, region p → region q →
      Coord.InRange (q.x.val - p.x.val) ∧ Coord.InRange (q.y.val - p.y.val)) (t : Duration) :
    ∃ p, g.pointAt t = .ok p := by
  refine exists_pointAt_eq_ok_of_hasWay (fun a ha => ?_) t
  obtain ⟨hstart, hfinish⟩ := h.actions a ha
  obtain ⟨hx, hy⟩ := hregion _ _ hstart hfinish
  exact ⟨hx, hy⟩

end Gesture

/-- A swipe between two points of a region is within it. -/
theorem Factory.within_swipe (f : Factory) {region : Point → Prop} {start finish : Point}
    (hstart : region start) (hfinish : region finish) (speed : UInt32) :
    (f.swipe start finish speed).value.Within region := by
  rw [swipe_value]
  refine (Gesture.within_touch hstart .zero).build ?_
  rw [List.forall_mem_cons, List.forall_mem_singleton]
  constructor
  · rintro p ⟨⟩
  · rintro p ⟨⟩
    exact hfinish

end PointerMotion
