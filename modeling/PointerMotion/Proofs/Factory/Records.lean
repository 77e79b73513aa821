import PointerMotion.Proofs.Factory.PinchReversal
import PointerMotion.Proofs.Floating.Order

/-!
# What the factory reports

A request leaves records of three kinds, in this order.

1. Its percentage, if it has one that is not between zero and one.  It is reported before anything
   is computed, so also where the computation fails.
2. The ends that were computed, if the gesture is over an area.  They are reported when the
   arithmetic on coordinates is over, and nothing fails after them.
3. Each move over some distance at speed zero.

The records are given here as functions of what is asked for and of the gestures that answer it
(`percentRecords`, `Request.endsRecord?`, `endlessRecords`).  A gesture starts and is lifted where
the records say, so they need not mention how the ends were computed.  A request leaves these
records and no others.
-/

namespace PointerMotion

open Floating (Format)

/-! ## Percentages -/

/-- The percentage is not a number, or it is less than zero or greater than one. -/
def IsBeyondUnit (percent : Single) : Prop :=
  percent = .nan ∨ ∃ i ∈ percent.position, i < 0 ∨ (Format.binary32.unit : Int) < i

theorem isBeyondUnit_iff_not_isUnit {percent : Single} :
    IsBeyondUnit percent ↔ ¬ IsUnit percent := by
  have hzero : (Floating.ofNat .binary32 0).position = some 0 :=
    congrArg Floating.position Floating.ofNat_zero
  have hone : (Floating.ofNat .binary32 1).position = some (Format.binary32.unit : Int) :=
    congrArg Floating.position Floating.ofNat_one
  rcases hpercent : percent.position with _ | i
  · obtain rfl : percent = .nan := by
      cases percent with
      | nan => rfl
      | infinite | finite => cases hpercent
    exact ⟨fun _ h => Floating.not_le_nan _ h.1, fun _ => .inl rfl⟩
  · have hne : percent ≠ .nan := by
      rintro rfl
      cases hpercent
    rw [IsUnit, Floating.le_iff_of_position hzero hpercent,
      Floating.le_iff_of_position hpercent hone, IsBeyondUnit, hpercent]
    simp only [hne, Option.mem_some_iff, exists_eq_left', false_or]
    omega

instance (percent : Single) : Decidable (IsBeyondUnit percent) :=
  decidable_of_iff' _ isBeyondUnit_iff_not_isUnit

/-- What is reported of a percentage. -/
def percentRecords (percent : Single) : List Record :=
  if IsBeyondUnit percent then [.percentOutsideUnit percent] else []

/-- Neither zero is beyond zero. -/
theorem percentRecords_of_isZero {percent : Single} (h : percent.IsZero) :
    percentRecords percent = [] := by
  refine if_neg ?_
  rintro (rfl | ⟨i, hi, hbeyond⟩)
  · cases h
  · obtain rfl : i = 0 := Option.some.inj (hi.symm.trans h)
    omega

theorem level_of_mem_percentRecords {percent : Single} {r : Record}
    (h : r ∈ percentRecords percent) : r.level = .warn := by
  rw [percentRecords] at h
  split at h
  · rw [List.mem_singleton.1 h]
    rfl
  · cases h

/-! ## Moves -/

/-- What is reported of a move from one point to another: that it is endless, if the points have a
distance and the speed is zero. -/
def endlessRecords (speed : UInt32) (p q : Point) : List Record :=
  if speed = 0 ∧ ¬ (p.distance q).IsZero then [.endlessMove (p.distance q)] else []

theorem travelTime_records (p q : Point) (speed : UInt32) :
    (travelTime (p.distance q) speed).records = endlessRecords speed p q := by
  rw [endlessRecords]
  by_cases hzero : (p.distance q).IsZero
  · rw [travelTime_of_isZero hzero, if_neg fun h => h.2 hzero, Logged.records_pure]
  · by_cases hspeed : speed = 0
    · rw [hspeed, travelTime_speed_zero hzero, if_pos ⟨rfl, hzero⟩]
    · rw [travelTime_of_ne hzero hspeed, if_neg fun h => hspeed h.1, Logged.records_pure]

namespace Factory

open Gesture

variable (f : Factory) {area : Rect} {direction : Direction} {percent : Single}

/-! ## Gestures between points -/

theorem perform_swipe (p q : Point) (speed : UInt32) : f.perform (.swipe p q speed) =
    ⟨endlessRecords speed p q, .ok [(f.swipe p q speed).value]⟩ := by
  rw [perform, Traced.lift_logged, Traced.ok_bind, Traced.pure_def, List.append_nil, swipe_records,
    travelTime_records]

theorem perform_drag (p q : Point) (speed : UInt32) : f.perform (.drag p q speed) =
    ⟨endlessRecords speed p q, .ok [(f.drag p q speed).value]⟩ := by
  have hrecords : (f.drag p q speed).records = endlessRecords speed p q := by
    rw [← travelTime_records, drag, moveAtSpeed, longClick, clickFor, finish_pause, finish_touch,
      Logged.records_bind, Logged.records_pure, List.append_nil]
  rw [perform, Traced.lift_logged, Traced.ok_bind, Traced.pure_def, List.append_nil, hrecords]

/-! ## Gestures over an area -/

theorem reportPercent_records (percent : Single) :
    (reportPercent percent).records = percentRecords percent := by
  rw [reportPercent, percentRecords]
  by_cases h : IsUnit percent
  · rw [if_pos h, if_neg fun hbeyond => isBeyondUnit_iff_not_isUnit.1 hbeyond h,
      Logged.records_pure]
  · rw [if_neg h, if_pos (isBeyondUnit_iff_not_isUnit.2 h), Logged.records_report]

/-- A swipe whose ends cannot be computed stops before it reports them. -/
theorem perform_swipeOver_of_error {e : Overflow} (h : area.swipeEnds direction percent = .error e)
    (speed : UInt32) : f.perform (.swipeOver area direction percent speed) =
      ⟨percentRecords percent, .error e⟩ := by
  simp only [perform, swipeOver, h, Traced.lift_logged, Traced.lift_except, Traced.ok_bind,
    Traced.error_bind, List.append_nil, reportPercent_records]

/-- A swipe over an area reports its ends, and then what a swipe between them reports. -/
theorem perform_swipeOver_of_ok {p q : Point} (h : area.swipeEnds direction percent = .ok (p, q))
    (speed : UInt32) : f.perform (.swipeOver area direction percent speed) =
      ⟨percentRecords percent ++ .swipe direction area p q :: endlessRecords speed p q,
        .ok [(f.swipe p q speed).value]⟩ := by
  simp only [perform, swipeOver, h, Traced.lift_logged, Traced.lift_except, Traced.ok_bind,
    Traced.pure_def, List.append_nil, List.nil_append, reportPercent_records,
    Logged.records_report, List.singleton_append, swipe_records, travelTime_records]

/-- The record of the ends of a gesture over an area: where its pointers start, and where they are
lifted. -/
def Request.endsRecord? : Request → List Gesture → Option Record
  | .swipeOver area direction _ _, [g] => some (.swipe direction area g.start g.finish)
  | .pinchClose area _ _, [bottomLeft, topRight] =>
    some (.pinch area
      ⟨⟨bottomLeft.start, bottomLeft.finish⟩, ⟨topRight.start, topRight.finish⟩⟩)
  | .pinchOpen area _ _, [bottomLeft, topRight] =>
    some (.pinch area
      ⟨⟨bottomLeft.finish, bottomLeft.start⟩, ⟨topRight.finish, topRight.start⟩⟩)
  | _, _ => none

/-- What a request over an area may leave.  Either it fails, and has reported its percentage at
most; or it is answered, and has reported the ends after that, and then the endless moves of the
gestures in their order. -/
inductive Request.Leaves (request : Request) (percent : Single) (speed : UInt32) :
    Traced (List Gesture) → Prop where
  | failure (e : Overflow) : Leaves request percent speed ⟨percentRecords percent, .error e⟩
  | answer {gestures : List Gesture} {ends : Record}
      (h : request.endsRecord? gestures = some ends) :
    Leaves request percent speed
      ⟨percentRecords percent ++
        ends :: gestures.flatMap fun g => endlessRecords speed g.start g.finish, .ok gestures⟩

theorem swipeOver_leaves (area : Rect) (direction : Direction) (percent : Single) (speed : UInt32) :
    (Request.swipeOver area direction percent speed).Leaves percent speed
      (f.perform (.swipeOver area direction percent speed)) := by
  cases hends : area.swipeEnds direction percent with
  | error e =>
    rw [f.perform_swipeOver_of_error hends speed]
    exact .failure e
  | ok ends =>
    have h : (Request.swipeOver area direction percent speed).Leaves percent speed
        ⟨_, .ok [(f.swipe ends.1 ends.2 speed).value]⟩ := .answer rfl
    rw [f.perform_swipeOver_of_ok hends speed]
    rwa [List.flatMap_singleton] at h

theorem pinchClose_leaves (area : Rect) (percent : Single) (speed : UInt32) :
    (Request.pinchClose area percent speed).Leaves percent speed
      (f.perform (.pinchClose area percent speed)) := by
  cases hpath : PinchPath.over area percent with
  | error e =>
    rw [(f.perform_pinch_of_error hpath speed).2, reportPercent_records]
    exact .failure e
  | ok path =>
    have h : (Request.pinchClose area percent speed).Leaves percent speed
        ⟨_, .ok [(f.swipe path.bottomLeft.outer path.bottomLeft.inner speed).value.pause pinchRest,
          (f.swipe path.topRight.outer path.topRight.inner speed).value.pause pinchRest]⟩ :=
      .answer rfl
    rw [f.perform_pinchClose_of_ok hpath speed, reportPercent_records, swipe_records,
      swipe_records, travelTime_records, travelTime_records, List.append_assoc]
    rwa [List.flatMap_cons, List.flatMap_singleton] at h

theorem pinchOpen_leaves (area : Rect) (percent : Single) (speed : UInt32) :
    (Request.pinchOpen area percent speed).Leaves percent speed
      (f.perform (.pinchOpen area percent speed)) := by
  cases hpath : PinchPath.over area percent with
  | error e =>
    rw [(f.perform_pinch_of_error hpath speed).1, reportPercent_records]
    exact .failure e
  | ok path =>
    have h : (Request.pinchOpen area percent speed).Leaves percent speed
        ⟨_, .ok [(f.swipe path.bottomLeft.inner path.bottomLeft.outer speed).value,
          (f.swipe path.topRight.inner path.topRight.outer speed).value]⟩ :=
      .answer rfl
    rw [f.perform_pinchOpen_of_ok hpath speed, reportPercent_records, swipe_records,
      swipe_records, travelTime_records, travelTime_records, List.append_assoc]
    rwa [List.flatMap_cons, List.flatMap_singleton] at h

/-- What fails has left warnings only. -/
theorem Request.Leaves.exists_outcome_eq_ok {request : Request} {speed : UInt32}
    {trace : Traced (List Gesture)} (h : request.Leaves percent speed trace) {r : Record}
    (hr : r ∈ trace.records) (hdebug : r.level = .debug) :
    ∃ gestures, trace.outcome = .ok gestures := by
  cases h with
  | failure e =>
    dsimp only at hr
    rw [level_of_mem_percentRecords hr] at hdebug
    cases hdebug
  | answer => exact ⟨_, rfl⟩

/-- Where ends were reported, there is an answer. -/
theorem exists_outcome_eq_ok_of_debug (request : Request) {r : Record}
    (hr : r ∈ (f.perform request).records) (hdebug : r.level = .debug) :
    ∃ gestures, (f.perform request).outcome = .ok gestures := by
  cases request with
  | click | clickFor | longClick | swipe | drag => exact ⟨_, rfl⟩
  | swipeOver area direction percent speed =>
    exact (f.swipeOver_leaves area direction percent speed).exists_outcome_eq_ok hr hdebug
  | pinchClose area percent speed =>
    exact (f.pinchClose_leaves area percent speed).exists_outcome_eq_ok hr hdebug
  | pinchOpen area percent speed =>
    exact (f.pinchOpen_leaves area percent speed).exists_outcome_eq_ok hr hdebug

/-- **What the factory reports.**

* A click of any kind is answered, and nothing is reported.
* A swipe or a drag between two points is answered, and nothing but an endless move is reported.
* A gesture over an area either fails, and has reported its percentage at most; or it is answered,
  and has reported the ends of its gestures after that, and then their endless moves.  So nothing
  fails after the ends were reported.
* A percentage is reported if it is not a number, less than zero or greater than one, and the
  negative zero is none of these. -/
theorem perform_leaves :
    (∀ point d, f.perform (.click point) = ⟨[], .ok [f.click point]⟩ ∧
      f.perform (.clickFor point d) = ⟨[], .ok [clickFor point d]⟩ ∧
      f.perform (.longClick point) = ⟨[], .ok [f.longClick point]⟩) ∧
    (∀ p q speed,
      f.perform (.swipe p q speed) =
        ⟨endlessRecords speed p q, .ok [(f.swipe p q speed).value]⟩ ∧
      f.perform (.drag p q speed) =
        ⟨endlessRecords speed p q, .ok [(f.drag p q speed).value]⟩) ∧
    (∀ area direction percent speed,
      (Request.swipeOver area direction percent speed).Leaves percent speed
        (f.perform (.swipeOver area direction percent speed)) ∧
      (Request.pinchClose area percent speed).Leaves percent speed
        (f.perform (.pinchClose area percent speed)) ∧
      (Request.pinchOpen area percent speed).Leaves percent speed
        (f.perform (.pinchOpen area percent speed))) ∧
    (∀ request, ∀ r ∈ (f.perform request).records, r.level = .debug →
      ∃ gestures, (f.perform request).outcome = .ok gestures) ∧
    percentRecords (-.ofNat .binary32 0) = [] := by
  refine ⟨fun _ _ => ⟨rfl, rfl, rfl⟩, fun p q speed => ?_, fun area direction percent speed => ?_,
    fun request r => f.exists_outcome_eq_ok_of_debug request, percentRecords_of_isZero ?_⟩
  · exact ⟨f.perform_swipe p q speed, f.perform_drag p q speed⟩
  · exact ⟨f.swipeOver_leaves area direction percent speed,
      f.pinchClose_leaves area percent speed, f.pinchOpen_leaves area percent speed⟩
  · rw [Floating.ofNat_zero]
    rfl

end Factory
end PointerMotion
