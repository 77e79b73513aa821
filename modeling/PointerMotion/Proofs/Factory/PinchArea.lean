import PointerMotion.Proofs.Factory.PinchEnds
import PointerMotion.Proofs.Factory.Scaling
import PointerMotion.Proofs.Gesture.Within

/-!
# Pinches stay in their area

How far a finger travels along an axis is a percentage of half of what the margins leave of the
extent.  A percentage is at most twice what it is taken of (`Coord.scaled_mem_of_nonneg`), and
halving makes up for this exactly: the finger does not come nearer to the opposite edge than the
margin.  Where the margins leave less than nothing, the finger travels outward, by four at most,
which is less than the margin it keeps from the edge behind it.

So in an area of six by six or more, all four ends of the two paths are in the area, and with them
whatever is built of swipes between them.
-/

namespace PointerMotion

/-! ## The paths -/

/-- The extents of an area are coordinates, and no less than six. -/
def Rect.IsPinchable (area : Rect) : Prop :=
  (6 ≤ area.right.val - area.left.val ∧ area.right.val - area.left.val < 9223372036854775808) ∧
    (6 ≤ area.bottom.val - area.top.val ∧
      area.bottom.val - area.top.val < 9223372036854775808)

instance (area : Rect) : Decidable area.IsPinchable :=
  inferInstanceAs (Decidable ((_ ∧ _) ∧ (_ ∧ _)))

/-- **A finger does not travel past the edges**: back by less than a margin, and forward by less
than the extent without a margin. -/
theorem exists_pinchTravel_eq_ok {extent : Coord} {percent : Single} (hpercent : IsUnit percent)
    (hextent : 6 ≤ extent.val) : ∃ travel, pinchTravel extent percent = .ok travel ∧
      -5 < travel.val ∧ travel.val < extent.val - 5 := by
  have hupper := extent.upper
  have hrange : Coord.InRange (extent.val - 10) := by constructor <;> omega
  obtain ⟨rest, -, hval⟩ := Coord.exists_checked_eq_ok .subtraction hrange
  refine ⟨_, pinchTravel_eq_ok_iff.2 ⟨rest, hval, rfl⟩, ?_⟩
  have hhalf := Coord.tdiv_two rest.val
  rw [← Coord.val_halfTowardZero] at hhalf
  split at hhalf
  · have hnonneg : 0 ≤ rest.halfTowardZero.val := by omega
    have := Coord.scaled_mem_of_nonneg hpercent hnonneg
    omega
  · have hnonpos : rest.halfTowardZero.val ≤ 0 := by omega
    have := Coord.scaled_mem_of_nonpos hpercent hnonpos
    omega

/-- **Both ends of both paths are in the area.** -/
theorem PinchPath.exists_over_eq_ok {area : Rect} {percent : Single} (harea : area.IsPinchable)
    (hpercent : IsUnit percent) : ∃ path, PinchPath.over area percent = .ok path ∧
      (path.bottomLeft.outer ∈ area ∧ path.bottomLeft.inner ∈ area) ∧
      (path.topRight.outer ∈ area ∧ path.topRight.inner ∈ area) := by
  obtain ⟨hwidth, hheight⟩ := harea
  obtain ⟨width, hw, hwval⟩ := Coord.exists_checked_eq_ok .subtraction
    (show Coord.InRange (area.right.val - area.left.val) by constructor <;> omega)
  obtain ⟨height, hh, hhval⟩ := Coord.exists_checked_eq_ok .subtraction
    (show Coord.InRange (area.bottom.val - area.top.val) by constructor <;> omega)
  obtain ⟨dx, hdx, hdxlower, hdxupper⟩ :=
    exists_pinchTravel_eq_ok hpercent (show 6 ≤ width.val by omega)
  obtain ⟨dy, hdy, hdylower, hdyupper⟩ :=
    exists_pinchTravel_eq_ok hpercent (show 6 ≤ height.val by omega)
  have hback : Coord.InRange (-dx.val) := by constructor <;> omega
  have hup : Coord.InRange (-dy.val) := by constructor <;> omega
  -- everything else that is computed lies between two edges, and so in range
  have hx : area.HasTravel .right dx.val := by
    have hlower := area.left.lower
    have hupper := area.right.upper
    simp only [Rect.HasTravel, Coord.InRange, Direction.opposite, Rect.edge]
    omega
  have hy : area.HasTravel .down dy.val := by
    have hlower := area.top.lower
    have hupper := area.bottom.upper
    simp only [Rect.HasTravel, Coord.InRange, Direction.opposite, Rect.edge]
    omega
  obtain ⟨path, hpath⟩ := exists_isPinch_iff.2 ⟨hx, hy⟩
  refine ⟨path, ?_, ?_⟩
  · exact over_eq_ok_iff.2 ⟨width, height, dx, dy, ⟨hw, hdx⟩, ⟨hh, hdy⟩, hback, hup, hpath⟩
  · obtain ⟨hl, hb, hr, ht, hpx, hpy, hqx, hqy⟩ := hpath
    simp only [Rect.mem_iff]
    omega

/-- The way between any two points of such an area is made of coordinates. -/
theorem Rect.IsPinchable.inRange_sub {area : Rect} (harea : area.IsPinchable) {p q : Point}
    (hp : p ∈ area) (hq : q ∈ area) :
    Coord.InRange (q.x.val - p.x.val) ∧ Coord.InRange (q.y.val - p.y.val) := by
  obtain ⟨⟨-, hwidth⟩, ⟨-, hheight⟩⟩ := harea
  rw [Rect.mem_iff] at hp hq
  constructor <;> constructor <;> omega

/-! ## The gestures -/

namespace Factory

open Gesture

variable (f : Factory)

variable {area : Rect} {percent : Single}

/-- Two fingers of a pinch, in either sense, are within the area. -/
theorem exists_pinch_eq_ok (harea : area.IsPinchable) (hpercent : IsUnit percent)
    (speed : UInt32) : ∀ request ∈ [Request.pinchClose area percent speed,
      .pinchOpen area percent speed], ∃ bottomLeft topRight,
        (f.perform request).outcome = .ok [bottomLeft, topRight] ∧
          bottomLeft.Within (· ∈ area) ∧ topRight.Within (· ∈ area) := by
  obtain ⟨path, hpath, ⟨hbl, hbl'⟩, ⟨htr, htr'⟩⟩ := PinchPath.exists_over_eq_ok harea hpercent
  rw [List.forall_mem_cons, List.forall_mem_singleton]
  constructor
  · refine ⟨_, _, ?_, (f.within_swipe hbl hbl' speed).step (s := .pause pinchRest) ?_,
      (f.within_swipe htr htr' speed).step (s := .pause pinchRest) ?_⟩
    · rw [perform, Traced.outcome_bind, pinchClose_outcome, hpath]
      rfl
    · rintro p ⟨⟩
    · rintro p ⟨⟩
  · refine ⟨_, _, ?_, f.within_swipe hbl' hbl speed, f.within_swipe htr' htr speed⟩
    rw [perform, Traced.outcome_bind, pinchOpen_outcome, hpath]
    rfl

/-- **Pinches stay in their area.**  Over an area whose extents are coordinates and no less than
six, and for a percentage between zero and one, a pinch in either sense is answered by two gestures
that start and end in the area, and have a point at any time. -/
theorem pinch_mem_area (harea : area.IsPinchable) (hpercent : IsUnit percent) (speed : UInt32) :
    ∀ request ∈ [Request.pinchClose area percent speed, .pinchOpen area percent speed],
      ∃ bottomLeft topRight, (f.perform request).outcome = .ok [bottomLeft, topRight] ∧
        ∀ g ∈ [bottomLeft, topRight],
          g.start ∈ area ∧ g.finish ∈ area ∧ ∀ t, ∃ p, g.pointAt t = .ok p := by
  intro request hrequest
  obtain ⟨bottomLeft, topRight, houtcome, hbl, htr⟩ :=
    f.exists_pinch_eq_ok harea hpercent speed request hrequest
  have hall {g : Gesture} (hg : g.Within (· ∈ area)) :
      g.start ∈ area ∧ g.finish ∈ area ∧ ∀ t, ∃ p, g.pointAt t = .ok p :=
    ⟨hg.start, hg.finish, hg.exists_pointAt_eq_ok fun _ _ hp hq => harea.inRange_sub hp hq⟩
  refine ⟨bottomLeft, topRight, houtcome, ?_⟩
  rw [List.forall_mem_cons, List.forall_mem_singleton]
  exact ⟨hall hbl, hall htr⟩

/-- The widest and lowest area, at the first coordinate, and the whole of it. -/
theorem pinch_mem_area_widest :
    let area : Rect := ⟨.clamp (-9223372036854775808), 0, .clamp (-1), 6⟩
    let percent : Single := .ofNat .binary32 1
    area.IsPinchable ∧ IsUnit percent ∧
      ∃ bottomLeft topRight, (perform {} (.pinchClose area percent 0)).outcome =
        .ok [bottomLeft, topRight] ∧ ∀ g ∈ [bottomLeft, topRight],
          g.start ∈ area ∧ g.finish ∈ area ∧ ∀ t, ∃ p, g.pointAt t = .ok p := by
  intro area percent
  have harea : area.IsPinchable := by decide
  have hpercent : IsUnit percent := by decide +kernel
  exact ⟨harea, hpercent, pinch_mem_area {} harea hpercent 0 _ List.mem_cons_self⟩

end Factory
end PointerMotion
