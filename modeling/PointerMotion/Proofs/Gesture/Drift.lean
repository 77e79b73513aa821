import PointerMotion.Proofs.Document.RoundTrip
import PointerMotion.Proofs.Gesture.Timeline

/-!
# The duration of a gesture and of what is read of it

The duration of a gesture is added up action by action, and the sum stays at the longest duration
once it has got there.  It is the exact sum all the same, cut off once at the end
(`nanos_duration_eq_min`): what is not there in the exact sum, such as an order, cannot matter.

A document keeps whole milliseconds, so each action may lose the part of a millisecond that it has,
which is less than one (`Duration.lt_nanos_kept_add`).  The losses add up exactly in the exact sums
(`sum_kept_drift`).  Cutting off both sums cannot put them further apart than they were, so the
bound holds for the durations too, whichever of them has been cut off.

Only actions below the greatest number of a document are judged here.  That number stands for many
durations, and each of these becomes the longest one when it is read.
-/

namespace PointerMotion

namespace Duration

variable {d : Duration}

/-- What a document keeps of a duration below the greatest number. -/
theorem nanos_kept (h : d.millis < greatestWritten) : d.kept.nanos = d.millis * 1000000 := by
  rw [kept, if_pos h, nanos_ofMillis (Nat.le_of_lt h)]

theorem nanos_kept_le (h : d.millis < greatestWritten) : d.kept.nanos ≤ d.nanos := by
  rw [nanos_kept h]
  exact Nat.div_mul_le_self d.nanos 1000000

/-- A duration loses less than a millisecond. -/
theorem lt_nanos_kept_add (h : d.millis < greatestWritten) :
    d.nanos < d.kept.nanos + 1000000 := by
  rw [nanos_kept h]
  exact Nat.lt_div_mul_add (by decide)

end Duration

theorem Action.duration_kept (a : Action) : a.kept.duration = a.duration.kept := by
  cases a <;> rfl

namespace Gesture

/-! ## Exact sums -/

/-- The exact sum of the durations of actions, in nanoseconds, which need not be a duration. -/
def exactSum (actions : List Action) : Nat := (actions.map fun a => a.duration.nanos).sum

@[simp] theorem exactSum_nil : exactSum [] = 0 := rfl

@[simp] theorem exactSum_cons (a : Action) (actions : List Action) :
    exactSum (a :: actions) = a.duration.nanos + exactSum actions := rfl

theorem before_length (actions : List Action) :
    before actions actions.length = exactSum actions := by
  rw [before, List.take_length, exactSum]

theorem nanos_duration_eq_min (g : Gesture) :
    g.duration.nanos = min (exactSum g.actions) Duration.longest.nanos := by
  rw [nanos_duration, before_length]

theorem exactSum_perm {actions actions' : List Action} (h : actions'.Perm actions) :
    exactSum actions' = exactSum actions :=
  (h.map _).sum_nat

/-- **What a document keeps of an exact sum.**  Nothing is added, and every action loses less than
a millisecond. -/
theorem sum_kept_drift {actions : List Action}
    (h : ∀ a ∈ actions, a.duration.millis < Duration.greatestWritten) :
    exactSum (actions.map Action.kept) ≤ exactSum actions ∧
      exactSum actions + actions.length ≤
        exactSum (actions.map Action.kept) + actions.length * 1000000 := by
  induction actions with
  | nil => exact ⟨Nat.le_refl _, Nat.le_refl _⟩
  | cons a actions ih =>
    obtain ⟨ha, hrest⟩ := List.forall_mem_cons.1 h
    obtain ⟨hle, hdrift⟩ := ih hrest
    have hlower := Duration.nanos_kept_le ha
    have hupper := Duration.lt_nanos_kept_add ha
    rw [List.map_cons, exactSum_cons, exactSum_cons, Action.duration_kept, List.length_cons]
    omega

/-- **The duration of a gesture and its drift.**

* It is the exact sum of the durations of its actions, or the longest duration if that is less.
* The order of the actions does not matter, and neither does where or when the gesture begins.
* One more action does not make it shorter.
* If no action has the greatest number in a document, then what is read of the gesture is not
  longer than the gesture.  It is just as long if there is no action, and otherwise it is shorter by
  less than a millisecond for each of them. -/
theorem duration_drift (g : Gesture) :
    g.duration.nanos = min (exactSum g.actions) Duration.longest.nanos ∧
      (∀ g' : Gesture, g'.actions.Perm g.actions → g'.duration = g.duration) ∧
      (∀ a, g.duration ≤ (g.append a).duration) ∧
      ((∀ a ∈ g.actions, a.duration.millis < Duration.greatestWritten) →
        ∃ g', reader.parse g.toJson.compact = .ok g' ∧ g'.duration ≤ g.duration ∧
          (g.actions = [] → g'.duration = g.duration) ∧
          (g.actions ≠ [] →
            g.duration.nanos < g'.duration.nanos + g.actions.length * 1000000)) := by
  refine ⟨g.nanos_duration_eq_min, ?_, ?_, ?_⟩
  · intro g' hperm
    refine Duration.ext ?_
    rw [nanos_duration_eq_min, nanos_duration_eq_min, exactSum_perm hperm]
  · intro a
    have hlongest := g.duration.nanos_le_longest
    rw [duration_append, Duration.le_iff, Duration.nanos_add]
    rw [Duration.nanos_longest] at hlongest
    omega
  · intro h
    obtain ⟨hle, hdrift⟩ := sum_kept_drift h
    have hkept := g.kept.nanos_duration_eq_min
    have hself := g.nanos_duration_eq_min
    rw [show g.kept.actions = g.actions.map Action.kept from rfl] at hkept
    refine ⟨g.kept, Document.Kind.parse_compact_eq_kept .gesture g, ?_, ?_, ?_⟩
    · rw [Duration.le_iff]
      omega
    · intro hnil
      refine Duration.ext ?_
      rw [hkept, hself, hnil]
      rfl
    · intro hne
      have hpos := List.length_pos_iff.2 hne
      omega

/-- Two waits, each a nanosecond short of a millisecond more than what is kept of it. -/
theorem duration_drift_waits :
    let g : Gesture := ((touch ⟨1, 2⟩ ⟨7, by decide⟩).pause ⟨1999999, by decide⟩).pause
      ⟨2999999, by decide⟩
    (∀ a ∈ g.actions, a.duration.millis < Duration.greatestWritten) ∧
      g.duration.nanos = 4999998 ∧ ∃ g', reader.parse g.toJson.compact = .ok g' ∧
        g'.duration.nanos = 3000000 ∧ g.duration.nanos < g'.duration.nanos + 2 * 1000000 := by
  intro g
  have hbelow : ∀ a ∈ g.actions, a.duration.millis < Duration.greatestWritten := by decide
  obtain ⟨-, -, -, hread⟩ := g.duration_drift
  obtain ⟨g', hparse, -, -, hdrift⟩ := hread hbelow
  obtain rfl : g.kept = g' :=
    Except.ok.inj ((Document.Kind.parse_compact_eq_kept .gesture g).symm.trans hparse)
  exact ⟨hbelow, by decide, g.kept, hparse, by decide, hdrift (List.cons_ne_nil _ _)⟩

end Gesture
end PointerMotion
