import PointerMotion.Gesture
import PointerMotion.Proofs.Floating.Rounding

/-!
# Where the pointer is, by exact sums of durations

`Gesture.pointIn` carries the time that is left through the actions, and takes from it what each
of them lasts.  Here the same question is asked without carrying anything: `before actions i` is
the exact sum of the durations before action `i`, which is not brought into the range of durations,
and the action is under way at a time if the time lies between this sum and the next one.

What joins the two is that the time left at action `i`, together with the sum before `i`, is the
time asked for (`pointIn_drop`).  So no subtraction ever goes below zero, and the walk arrives at
every action whose sum has been reached.

The duration of a gesture is the exact sum of all durations where that is a duration, and
otherwise the longest one (`nanos_duration`): the two ways to add up agree below the bound.
-/

namespace PointerMotion

/-! ## When a point of an action cannot be computed -/

theorem Coord.between_eq_error_iff {a b : Coord} {fraction : Double} {e : Overflow} :
    a.between b fraction = .error e ↔ ¬ InRange (b.val - a.val) ∧ e = .subtraction := by
  rw [← checked_eq_error_iff, between, sub]
  cases checked .subtraction (b.val - a.val) <;> simp [bind, Except.bind, pure, Except.pure]

/-- A point fails as its coordinates do. -/
theorem Action.pointAt_eq_error_iff {a : Action} {fraction : Double} {e : Overflow} :
    a.pointAt fraction = .error e ↔ e = .subtraction ∧
      (¬ Coord.InRange (a.finish.x.val - a.start.x.val) ∨
        ¬ Coord.InRange (a.finish.y.val - a.start.y.val)) := by
  have hx := @Coord.between_eq_error_iff a.start.x a.finish.x fraction
  have hy := @Coord.between_eq_error_iff a.start.y a.finish.y fraction
  rw [pointAt]
  cases hx' : a.start.x.between a.finish.x fraction with
  | error e' =>
    obtain ⟨hrange, rfl⟩ := hx.1 hx'
    simp [bind, Except.bind, hrange, eq_comm]
  | ok x =>
    have hrange : Coord.InRange (a.finish.x.val - a.start.x.val) := by
      by_contra h
      rw [hx.2 ⟨h, rfl⟩] at hx'
      cases hx'
    cases hy' : a.start.y.between a.finish.y fraction with
    | error e' =>
      obtain ⟨hrange', rfl⟩ := hy.1 hy'
      simp [bind, Except.bind, hrange', eq_comm]
    | ok y =>
      have hrange' : Coord.InRange (a.finish.y.val - a.start.y.val) := by
        by_contra h
        rw [hy.2 ⟨h, rfl⟩] at hy'
        cases hy'
      simp [bind, Except.bind, pure, Except.pure, hrange, hrange']

namespace Gesture

/-! ## Exact sums -/

/-- The exact sum of the durations before action `i`, in nanoseconds. -/
def before (actions : List Action) (i : Nat) : Nat :=
  ((actions.take i).map fun a => a.duration.nanos).sum

@[simp] theorem before_zero (actions : List Action) : before actions 0 = 0 := rfl

@[simp] theorem before_cons_succ (a : Action) (actions : List Action) (i : Nat) :
    before (a :: actions) (i + 1) = a.duration.nanos + before actions i := rfl

theorem before_succ {actions : List Action} {i : Nat} {a : Action} (h : actions[i]? = some a) :
    before actions (i + 1) = before actions i + a.duration.nanos := by
  rw [before, before, List.take_add_one, h]
  simp

theorem before_mono (actions : List Action) {i j : Nat} (h : i ≤ j) :
    before actions i ≤ before actions j := by
  induction actions generalizing i j with
  | nil => simp [before]
  | cons a actions ih =>
    cases i with
    | zero => exact Nat.zero_le _
    | succ i =>
      cases j with
      | zero => omega
      | succ j =>
        have := ih (i := i) (j := j) (by omega)
        rw [before_cons_succ, before_cons_succ]
        omega

/-- Action `i` is under way at a time: it has begun, and it is not over. -/
def UnderWay (actions : List Action) (i : Nat) (t : Duration) : Prop :=
  ∃ a, actions[i]? = some a ∧ before actions i ≤ t.nanos ∧
    t.nanos < before actions i + a.duration.nanos

/-- At most one action is under way. -/
theorem UnderWay.unique {actions : List Action} {i j : Nat} {t : Duration}
    (hi : UnderWay actions i t) (hj : UnderWay actions j t) : i = j := by
  obtain ⟨a, ha, hbegin, hend⟩ := hi
  obtain ⟨b, hb, hbegin', hend'⟩ := hj
  rw [← before_succ ha] at hend
  rw [← before_succ hb] at hend'
  rcases Nat.lt_trichotomy i j with h | h | h
  · have := before_mono actions (Nat.succ_le_of_lt h)
    rw [Nat.succ_eq_add_one] at this
    omega
  · exact h
  · have := before_mono actions (Nat.succ_le_of_lt h)
    rw [Nat.succ_eq_add_one] at this
    omega

/-- When no action is under way, all of them are over. -/
theorem before_length_le {actions : List Action} {t : Duration}
    (h : ∀ i, ¬ UnderWay actions i t) : before actions actions.length ≤ t.nanos := by
  have hall : ∀ i ≤ actions.length, before actions i ≤ t.nanos := by
    intro i
    induction i with
    | zero => exact fun _ => Nat.zero_le _
    | succ i ih =>
      intro hi
      have hlast : actions[i]? = some actions[i] := List.getElem?_eq_getElem hi
      rw [before_succ hlast]
      by_contra hlt
      exact h i ⟨_, hlast, ih (Nat.le_of_lt hi), by omega⟩
  exact hall _ (Nat.le_refl _)

/-! ## The walk through the actions -/

/-- **The walk arrives at action `i`** if the sum before it has been reached, and the time that is
left there is what is missing from the sum to the time asked for. -/
theorem pointIn_drop (finish : Point) {actions : List Action} {i : Nat} {t left : Duration}
    (hi : i ≤ actions.length) (h : left.nanos + before actions i = t.nanos) :
    pointIn finish actions t = pointIn finish (actions.drop i) left := by
  induction actions generalizing i t with
  | nil =>
    obtain rfl : i = 0 := Nat.le_zero.1 hi
    obtain rfl : left = t := Duration.ext h
    rfl
  | cons a actions ih =>
    cases i with
    | zero =>
      obtain rfl : left = t := Duration.ext h
      rfl
    | succ i =>
      rw [before_cons_succ] at h
      have hover : ¬ t < a.duration := by
        rw [Duration.lt_iff]
        omega
      rw [pointIn, dif_neg hover, List.drop_succ_cons]
      refine ih (Nat.le_of_succ_le_succ hi) ?_
      rw [Duration.nanos_since]
      omega

/-- What is left of a time that is no shorter than a number of nanoseconds. -/
theorem exists_left {t : Duration} {n : Nat} (h : n ≤ t.nanos) :
    ∃ left : Duration, left.nanos + n = t.nanos :=
  ⟨⟨t.nanos - n, Nat.lt_of_le_of_lt (Nat.sub_le _ _) t.bounded⟩, Nat.sub_add_cancel h⟩

/-- While an action is under way, the pointer is where the action has it. -/
theorem pointIn_of_underWay (finish : Point) {actions : List Action} {i : Nat} {a : Action}
    {t left : Duration} (ha : actions[i]? = some a) (h : left.nanos + before actions i = t.nanos)
    (hend : t.nanos < before actions i + a.duration.nanos) :
    pointIn finish actions t = a.pointAt (fraction left a.duration) := by
  obtain ⟨hi, hget⟩ := List.getElem?_eq_some_iff.1 ha
  have hleft : left < a.duration := by
    rw [Duration.lt_iff]
    omega
  rw [pointIn_drop finish (Nat.le_of_lt hi) h, List.drop_eq_getElem_cons hi, hget, pointIn,
    dif_pos hleft]

/-- When all actions are over, the pointer is where it was lifted. -/
theorem pointIn_of_before_length_le (finish : Point) {actions : List Action} {t : Duration}
    (h : before actions actions.length ≤ t.nanos) : pointIn finish actions t = .ok finish := by
  obtain ⟨left, hleft⟩ := exists_left h
  rw [pointIn_drop finish (Nat.le_refl _) hleft, List.drop_length, pointIn]

/-! ## The duration of a gesture -/

theorem nanos_foldl_add (actions : List Action) (sum : Duration) :
    (actions.foldl (fun sum a => sum + a.duration) sum).nanos =
      min (sum.nanos + before actions actions.length) Duration.longest.nanos := by
  induction actions generalizing sum with
  | nil =>
    have := sum.nanos_le_longest
    simp only [List.foldl_nil, List.length_nil, before_zero, Nat.add_zero]
    omega
  | cons a actions ih =>
    rw [List.foldl_cons, ih, Duration.nanos_add, List.length_cons, before_cons_succ,
      Duration.nanos_longest]
    omega

/-- **The duration of a gesture** is the exact sum of the durations of its actions, or the longest
duration. -/
theorem nanos_duration (g : Gesture) :
    g.duration.nanos = min (before g.actions g.actions.length) Duration.longest.nanos := by
  rw [duration, nanos_foldl_add, Duration.nanos_zero, Nat.zero_add]

/-! ## The pointer on the timeline -/

variable (g : Gesture) (t : Duration)

theorem pointAt_of_underWay {i : Nat} {a : Action} (ha : g.actions[i]? = some a)
    (hbegin : before g.actions i ≤ t.nanos)
    (hend : t.nanos < before g.actions i + a.duration.nanos) :
    g.pointAt t =
      a.pointAt (.ofNat .binary64 (t.nanos - before g.actions i) /
        .ofNat .binary64 a.duration.nanos) := by
  obtain ⟨left, hleft⟩ := exists_left hbegin
  rw [pointAt, pointIn_of_underWay _ ha hleft hend, fraction, ← hleft, Nat.add_sub_cancel]

theorem pointAt_of_forall_not_underWay (h : ∀ i, ¬ UnderWay g.actions i t) :
    g.pointAt t = .ok g.finish :=
  pointIn_of_before_length_le _ (before_length_le h)

/-- A point cannot be computed exactly if the action under way is too long for it. -/
theorem pointAt_eq_error_iff {e : Overflow} :
    g.pointAt t = .error e ↔ e = .subtraction ∧ ∃ i origin target d,
      g.actions[i]? = some (.move origin target d) ∧ UnderWay g.actions i t ∧
        (¬ Coord.InRange (target.x.val - origin.x.val) ∨
          ¬ Coord.InRange (target.y.val - origin.y.val)) := by
  constructor
  · intro herror
    by_cases hnone : ∀ i, ¬ UnderWay g.actions i t
    · rw [g.pointAt_of_forall_not_underWay t hnone] at herror
      cases herror
    · obtain ⟨i, hi⟩ := not_forall_not.1 hnone
      obtain ⟨a, ha, hbegin, hend⟩ := id hi
      rw [g.pointAt_of_underWay t ha hbegin hend, Action.pointAt_eq_error_iff] at herror
      obtain ⟨he, hrange⟩ := herror
      cases a with
      | pause point d =>
        -- a pause has no way to go, and zero is in range
        simp [Action.start, Action.finish, Coord.InRange] at hrange
      | move origin target d => exact ⟨he, i, origin, target, d, ha, hi, hrange⟩
  · rintro ⟨he, i, origin, target, d, ha, ⟨b, hb, hbegin, hend⟩, hrange⟩
    obtain rfl : Action.move origin target d = b := Option.some.inj (ha.symm.trans hb)
    rw [g.pointAt_of_underWay t ha hbegin hend]
    exact Action.pointAt_eq_error_iff.2 ⟨he, hrange⟩

/-- **The pointer on the timeline.**

* At most one action is under way, and none that takes no time.
* The walk arrives at every action whose sum has been reached, and what it has left there is
  exact.
* While an action is under way, the pointer is at the fraction of it that has passed, and what the
  fraction is divided by is not zero; while none is, the pointer is where it was lifted.
* There is no point exactly if a move is under way whose way is no coordinate.
* From its duration on, the pointer is where it was lifted, unless the sum is not a duration. -/
theorem pointAt_timeline :
    (∀ i j, UnderWay g.actions i t → UnderWay g.actions j t → i = j) ∧
      (∀ i a, g.actions[i]? = some a → a.duration = .zero → ¬ UnderWay g.actions i t) ∧
      (∀ i ≤ g.actions.length, before g.actions i ≤ t.nanos →
        ∃ left : Duration, left.nanos + before g.actions i = t.nanos ∧
          g.pointAt t = pointIn g.finish (g.actions.drop i) left) ∧
      (∀ i a, g.actions[i]? = some a → before g.actions i ≤ t.nanos →
        t.nanos < before g.actions i + a.duration.nanos →
        ¬ Floating.IsZero (.ofNat .binary64 a.duration.nanos) ∧
          g.pointAt t = a.pointAt (.ofNat .binary64 (t.nanos - before g.actions i) /
            .ofNat .binary64 a.duration.nanos)) ∧
      ((∀ i, ¬ UnderWay g.actions i t) → g.pointAt t = .ok g.finish) ∧
      (∀ e, g.pointAt t = .error e ↔ e.message = "attempt to subtract with overflow" ∧
        ∃ i origin target d, g.actions[i]? = some (.move origin target d) ∧
          UnderWay g.actions i t ∧ (¬ Coord.InRange (target.x.val - origin.x.val) ∨
            ¬ Coord.InRange (target.y.val - origin.y.val))) ∧
      (before g.actions g.actions.length ≤ Duration.longest.nanos → g.duration ≤ t →
        g.pointAt t = .ok g.finish) := by
  refine ⟨fun i j hi hj => hi.unique hj, ?_, ?_, ?_, g.pointAt_of_forall_not_underWay t, ?_, ?_⟩
  · rintro i a ha hzero ⟨b, hb, hbegin, hend⟩
    obtain rfl : a = b := Option.some.inj (ha.symm.trans hb)
    rw [hzero, Duration.nanos_zero] at hend
    omega
  · intro i hi hbegin
    obtain ⟨left, hleft⟩ := exists_left hbegin
    exact ⟨left, hleft, pointIn_drop _ hi hleft⟩
  · intro i a ha hbegin hend
    exact ⟨Floating.not_isZero_ofNat (by omega), g.pointAt_of_underWay t ha hbegin hend⟩
  · intro e
    have hmessage : e.message = "attempt to subtract with overflow" ↔ e = .subtraction := by
      cases e <;> decide
    rw [hmessage]
    exact g.pointAt_eq_error_iff t
  · intro hsum ht
    rw [Duration.le_iff, nanos_duration, Nat.min_eq_left hsum] at ht
    exact pointIn_of_before_length_le _ ht

end Gesture
end PointerMotion
