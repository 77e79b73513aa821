import PointerMotion.Proofs.Geometry.Separation
import PointerMotion.Proofs.Gesture.Continuity
import PointerMotion.Proofs.Gesture.Interpolation

/-!
# Endless moves

A move at speed zero takes no time or never ends, and which of the two is decided by a comparison of
floating-point numbers: whether the distance is zero.  Within `2 ^ 53` this is whether the pointer is
there already (`Point.isZero_distance_iff_eq`).

What is said of the time after an endless move does not ask where it came from.

* The longest duration is the one that a document gives back, although many share its number, so no
  edit changes an action that takes so long (`exists_edits_getElem?_eq`).
* A sum of durations does not come back from the longest one (`duration_eq_longest`).
* The walk of the pointer ends before the actions that are appended, as long as the exact sum of the
  durations before them has not been reached (`pointIn_append_of_lt`).  With an endless move among
  these, the sum is reached by one time at most: the longest one, and only if everything before the
  endless move takes no time.
-/

namespace PointerMotion

theorem Action.kept_of_duration_eq_longest {a : Action} (ha : a.duration = .longest) :
    a.kept = a :=
  Action.kept_eq_self_iff.2 (.inl ha)

namespace Gesture

variable {g : Gesture} {i : Nat} {a : Action}

/-! ## An action keeps its place -/

/-- Steps append actions. -/
theorem exists_build_eq (g : Gesture) (steps : List Step) :
    ∃ later, g.build steps = { g with actions := g.actions ++ later } := by
  induction steps generalizing g with
  | nil => exact ⟨[], by rw [build_nil, List.append_nil]⟩
  | cons s steps ih =>
    obtain ⟨a, happend, -⟩ := g.exists_step_eq_append s
    obtain ⟨later, hlater⟩ := ih (g.append a)
    refine ⟨a :: later, ?_⟩
    rw [build_cons, happend, hlater, append, List.append_assoc, List.singleton_append]

theorem getElem?_step_eq (h : g.actions[i]? = some a) (s : Step) :
    (g.step s).value.actions[i]? = some a := by
  obtain ⟨b, happend, -⟩ := g.exists_step_eq_append s
  rw [happend, append, List.getElem?_append_left (List.getElem?_eq_some_iff.1 h).1, h]

/-- **No run of edits touches an action that a document keeps.** -/
theorem exists_edits_getElem?_eq (h : g.actions[i]? = some a) (ha : a.kept = a)
    (run : List Edit) : ∃ g', g.edits run = .ok g' ∧ g'.actions[i]? = some a := by
  refine exists_edits_eq_ok (P := fun g => g.actions[i]? = some a) ?_ ?_ h run
  · exact fun g s hg => getElem?_step_eq hg s
  · intro g hg
    rw [kept, List.getElem?_map, hg, Option.map_some, ha]

/-! ## What comes after an endless action -/

theorem before_append {actions later : List Action} (hi : i ≤ actions.length) :
    before (actions ++ later) i = before actions i := by
  rw [before, before, List.take_append_of_le_length hi]

theorem before_add_le_length (h : g.actions[i]? = some a) :
    before g.actions i + a.duration.nanos ≤ before g.actions g.actions.length := by
  rw [← before_succ h]
  exact before_mono g.actions (List.getElem?_eq_some_iff.1 h).1

/-- **A gesture with an endless action is endless.** -/
theorem duration_eq_longest (h : g.actions[i]? = some a) (ha : a.duration = .longest) :
    g.duration = .longest := by
  have hle := before_add_le_length h
  refine Duration.ext ?_
  rw [nanos_duration]
  rw [ha] at hle
  omega

/-- **What is appended does not matter** before the exact sum of the durations has been reached. -/
theorem pointIn_append_of_lt {finish finish' : Point} {actions later : List Action} {t : Duration}
    (h : t.nanos < before actions actions.length) :
    pointIn finish' (actions ++ later) t = pointIn finish actions t := by
  induction actions generalizing t with
  | nil =>
    rw [List.length_nil, before_zero] at h
    omega
  | cons a actions ih =>
    rw [List.cons_append, pointIn, pointIn]
    by_cases ht : t < a.duration
    · rw [dif_pos ht, dif_pos ht]
    · rw [dif_neg ht, dif_neg ht]
      refine ih ?_
      rw [List.length_cons, before_cons_succ] at h
      rw [Duration.nanos_since]
      rw [Duration.lt_iff] at ht
      omega

theorem pointAt_build_of_lt {t : Duration} (h : t.nanos < before g.actions g.actions.length)
    (steps : List Step) : (g.build steps).pointAt t = g.pointAt t := by
  obtain ⟨later, hlater⟩ := g.exists_build_eq steps
  rw [hlater]
  exact pointIn_append_of_lt h

/-! ## Moves at speed zero -/

theorem moveAtSpeed_zero_of_eq (g : Gesture) : g.moveAtSpeed g.finish 0 =
    ⟨[], g.moveTo g.finish .zero⟩ := by
  have hzero : (g.finish.distance g.finish).IsZero := Point.isZero_distance_iff.2 ⟨rfl, rfl⟩
  rw [moveAtSpeed, travelTime_of_isZero hzero]
  rfl

theorem moveAtSpeed_zero_of_ne {target : Point} (h : ¬ (g.finish.distance target).IsZero) :
    g.moveAtSpeed target 0 =
      ⟨[.endlessMove (g.finish.distance target)], g.moveTo target .longest⟩ := by
  rw [moveAtSpeed, travelTime_speed_zero h]
  rfl

/-- **An endless move stays endless.**  At speed zero, a move within `2 ^ 53` to another point takes
the longest duration and leaves one warning; a move to where the pointer is takes no time and leaves
none.  After a move that takes the longest duration,

* no run of edits fails, and after it the move is the action that it was and the gesture is endless;
* steps do not change where the pointer is at any time, with one exception: the longest time, when
  everything before the endless move takes no time. -/
theorem moveAtSpeed_zero (g : Gesture) {target : Point} (hfinish : g.finish.IsNear (2 ^ 53))
    (htarget : target.IsNear (2 ^ 53)) :
    (target ≠ g.finish → (Record.endlessMove (g.finish.distance target)).level = .warn ∧
        g.moveAtSpeed target 0 =
          ⟨[.endlessMove (g.finish.distance target)], g.moveTo target .longest⟩) ∧
      (target = g.finish → g.moveAtSpeed target 0 = ⟨[], g.moveTo target .zero⟩) ∧
      (∀ run : List Edit, ∃ g', (g.moveTo target .longest).edits run = .ok g' ∧
        g'.actions[g.actions.length]? = some (.move g.finish target .longest) ∧
          g'.duration = .longest) ∧
      (∀ (steps : List Step) (t : Duration),
        (t = .longest → before g.actions g.actions.length ≠ 0) →
          ((g.moveTo target .longest).build steps).pointAt t =
            (g.moveTo target .longest).pointAt t) := by
  have hmove : (g.moveTo target .longest).actions[g.actions.length]? =
      some (.move g.finish target .longest) := by
    rw [moveTo, append, List.getElem?_concat_length]
  refine ⟨?_, ?_, ?_, ?_⟩
  · intro hne
    refine ⟨rfl, moveAtSpeed_zero_of_ne ?_⟩
    rw [Point.isZero_distance_iff_eq hfinish htarget]
    exact hne.symm
  · rintro rfl
    exact g.moveAtSpeed_zero_of_eq
  · intro run
    obtain ⟨g', hrun, hg'⟩ :=
      exists_edits_getElem?_eq hmove (Action.kept_of_duration_eq_longest rfl) run
    exact ⟨g', hrun, hg', duration_eq_longest hg' rfl⟩
  · intro steps t hexception
    refine pointAt_build_of_lt (Nat.lt_of_lt_of_le ?_ (before_add_le_length hmove)) steps
    have hearlier : before (g.moveTo target .longest).actions g.actions.length =
        before g.actions g.actions.length := before_append (Nat.le_refl _)
    change t.nanos < before _ _ + Duration.longest.nanos
    have hle := t.nanos_le_longest
    rw [hearlier]
    by_cases ht : t = .longest
    · have hsome := hexception ht
      omega
    · have hne : t.nanos ≠ Duration.longest.nanos := fun heq => ht (Duration.ext heq)
      omega

/-- A pointer that touches down and moves away for ever at once, and is then told to be somewhere
else: at the longest time, and only then, the two gestures have it at different points. -/
theorem moveAtSpeed_zero_at_once :
    let g := touch ⟨9007199254740992, 3⟩
    let target : Point := ⟨.clamp (-9007199254740992), 3⟩
    let steps : List Step := [.moveTo ⟨5, 6⟩ .zero, .pause (.ofMillis 1), .moveAtSpeed ⟨1, 1⟩ 0]
    g.finish.IsNear (2 ^ 53) ∧ target.IsNear (2 ^ 53) ∧ target ≠ g.finish ∧
      (g.moveAtSpeed target 0).value = g.moveTo target .longest ∧
      (∀ t, t ≠ .longest → ((g.moveTo target .longest).build steps).pointAt t =
        (g.moveTo target .longest).pointAt t) ∧
      before g.actions g.actions.length = 0 ∧
      (g.moveTo target .longest).pointAt .longest = .ok target ∧
      ((g.moveTo target .longest).build steps).pointAt .longest = .ok ⟨5, 6⟩ := by
  intro g target steps
  have hfinish : g.finish.IsNear (2 ^ 53) := by decide
  have htarget : target.IsNear (2 ^ 53) := by decide
  have hne : target ≠ g.finish := by decide
  obtain ⟨haway, -, -, hsteps⟩ := g.moveAtSpeed_zero hfinish htarget
  refine ⟨hfinish, htarget, hne, congrArg Logged.value (haway hne).2, ?_, rfl, ?_, ?_⟩
  · exact fun t ht => hsteps steps t fun hlongest => absurd hlongest ht
  · decide +kernel
  · decide +kernel

end Gesture
end PointerMotion
