import PointerMotion.Proofs.Factory.Scaling
import PointerMotion.Proofs.Factory.SwipeEnds
import PointerMotion.Proofs.Gesture.Within

/-!
# Swipes stay in their area

A swipe over an area begins on one edge and goes ahead by a percentage of the extent.  The
percentage is computed in single precision, and the extent has to become a value of single precision
first.  This conversion is the only place where the way may become longer than the extent: rounding
the product cannot pass the rounded extent (`Coord.scaled_le_ofFloating`).  So if the conversion
does not make the extent longer, then no percentage between zero and one leads past the edge ahead,
and the whole of an extent that is a value of single precision leads exactly there.  Extents up to
`2^24` are such values.
-/

namespace PointerMotion

namespace Rect

/-- The edges of an area are in order, its extents are coordinates, and so is the sum of the edges
beside a direction. -/
structure IsSwipeable (area : Rect) (d : Direction) : Prop where
  sorted : area.left.val ≤ area.right.val ∧ area.top.val ≤ area.bottom.val
  width : Coord.InRange (area.right.val - area.left.val)
  height : Coord.InRange (area.bottom.val - area.top.val)
  crossSum : Coord.InRange (area.crossSum d)

/-- The point is in the rectangle or on one of its edges. -/
def Encloses (r : Rect) (p : Point) : Prop :=
  (r.left.val ≤ p.x.val ∧ p.x.val ≤ r.right.val) ∧ (r.top.val ≤ p.y.val ∧ p.y.val ≤ r.bottom.val)

variable {area : Rect} {d : Direction}

/-- An area has an extent along each axis, which is not negative. -/
theorem IsSwipeable.exists_extent_eq_ok (h : area.IsSwipeable d) :
    ∃ extent, area.extent d = .ok extent ∧ 0 ≤ extent.val := by
  obtain ⟨hx, hy⟩ := h.sorted
  cases d with
  | left | right =>
    obtain ⟨extent, hextent, hval⟩ := Coord.exists_checked_eq_ok .subtraction h.width
    exact ⟨extent, hextent, by omega⟩
  | up | down =>
    obtain ⟨extent, hextent, hval⟩ := Coord.exists_checked_eq_ok .subtraction h.height
    exact ⟨extent, hextent, by omega⟩

/-- A way within the extent can be taken in the sense of the direction. -/
theorem exists_isSwipe {extent : Coord} {percent : Single} (h : area.IsSwipeable d)
    (hextent : area.extent d = .ok extent)
    (hway : 0 ≤ (extent.scaled percent).val ∧ (extent.scaled percent).val ≤ extent.val) :
    ∃ start finish, area.swipeEnds d percent = .ok (start, finish) ∧
      area.IsSwipe d (extent.scaled percent).val start finish := by
  have hval := extent_eq_ok_iff.1 hextent
  obtain ⟨hlower, hupper⟩ := (area.edge d).inRange_val
  obtain ⟨hlower', hupper'⟩ := (area.edge d.opposite).inRange_val
  have hextent' := extent.upper
  refine exists_swipeEnds_eq_ok h.crossSum hextent ?_ ?_
  · rcases d.sign_eq with hsign | hsign <;> rw [hsign] <;> constructor <;> omega
  · rcases d.sign_eq with hsign | hsign <;> rw [hsign] at hval ⊢ <;> constructor <;> omega

/-- A swipe that goes ahead by the extent at most has both its ends on or between the edges. -/
theorem IsSwipe.encloses {start finish : Point} {extent : Coord} {way : Int}
    (h : area.IsSwipe d way start finish) (harea : area.IsSwipeable d)
    (hextent : area.extent d = .ok extent) (hway : 0 ≤ way ∧ way ≤ extent.val) :
    area.Encloses start ∧ area.Encloses finish := by
  obtain ⟨hx, hy⟩ := harea.sorted
  obtain ⟨hbegins, hmiddle, hreaches, hstraight⟩ := h
  rw [extent_eq_ok_iff] at hextent
  have hstart := congrArg Coord.val hbegins
  have hcross := congrArg Coord.val hstraight
  cases d <;>
    simp only [Point.along, Point.across, edge, Direction.opposite, Direction.sign, Rect.crossSum]
      at hextent hstart hmiddle hreaches hcross <;>
    simp only [Encloses] <;>
    omega

/-- The whole of the extent leads to the edge ahead. -/
theorem IsSwipe.along_finish {start finish : Point} {extent : Coord}
    (h : area.IsSwipe d extent.val start finish) (hextent : area.extent d = .ok extent) :
    finish.along d = area.edge d := by
  have hreaches := h.reaches
  rw [h.begins, extent_eq_ok_iff.1 hextent] at hreaches
  refine Coord.ext ?_
  rcases d.sign_eq with hsign | hsign <;> rw [hsign] at hreaches <;> omega

theorem Encloses.inRange_sub (h : area.IsSwipeable d) {p q : Point} (hp : area.Encloses p)
    (hq : area.Encloses q) :
    Coord.InRange (q.x.val - p.x.val) ∧ Coord.InRange (q.y.val - p.y.val) := by
  obtain ⟨hwidth, hwidth'⟩ := h.width
  obtain ⟨hheight, hheight'⟩ := h.height
  obtain ⟨hpx, hpy⟩ := hp
  obtain ⟨hqx, hqy⟩ := hq
  constructor <;> constructor <;> omega

end Rect

namespace Factory

open Gesture

variable (f : Factory) {area : Rect} {direction : Direction} {percent : Single}

theorem swipeOver_outcome_of_swipeEnds {start finish : Point}
    (h : area.swipeEnds direction percent = .ok (start, finish)) (speed : UInt32) :
    (f.perform (.swipeOver area direction percent speed)).outcome =
      .ok [(f.swipe start finish speed).value] := by
  rw [perform, Traced.outcome_bind, swipeOver_outcome, h]
  rfl

/-- **Swipes stay in their area.**  The edges of the area are in order, its extents and the sum of
the edges beside the direction are coordinates, and the percentage is between zero and one.  Then
the area has an extent in the direction, which single precision does not make longer if it is at
most `2^24`; and whenever single precision does not make it longer, the swipe is answered by a
gesture that

* starts on the edge opposite to the direction, and ends in the closed area;
* starts and ends in the middle between the edges beside it, rounded down;
* goes in the direction, or nowhere;
* has a point at any time;
* ends on the edge that the direction points to, if all of an extent is asked for that is a value
  of single precision. -/
theorem swipeOver_encloses (harea : area.IsSwipeable direction) (hpercent : IsUnit percent)
    (speed : UInt32) : ∃ extent, area.extent direction = .ok extent ∧
      (extent.val ≤ 16777216 → Coord.ofFloating extent.toSingle ≤ extent) ∧
      (Coord.ofFloating extent.toSingle ≤ extent → ∃ g,
        (f.perform (.swipeOver area direction percent speed)).outcome = .ok [g] ∧
          g.start.along direction = area.edge direction.opposite ∧
          (area.Encloses g.start ∧ area.Encloses g.finish) ∧
          (g.start.across direction).val = area.crossSum direction / 2 ∧
          g.finish.across direction = g.start.across direction ∧
          0 ≤ direction.sign *
            ((g.finish.along direction).val - (g.start.along direction).val) ∧
          (∀ t, ∃ p, g.pointAt t = .ok p) ∧
          (extent.IsExact .binary32 → percent = .ofNat .binary32 1 →
            g.finish.along direction = area.edge direction)) := by
  obtain ⟨extent, hextent, hnonneg⟩ := harea.exists_extent_eq_ok
  refine ⟨extent, hextent, fun hsmall => ?_, fun hfits => ?_⟩
  · have hexact : extent.IsExact .binary32 := by
      refine Coord.isExact_of_natAbs_le ?_ (by decide)
      change extent.val.natAbs ≤ 16777216
      omega
    rw [hexact.ofFloating]
    exact Int.le_refl _
  · have hway : 0 ≤ (extent.scaled percent).val ∧ (extent.scaled percent).val ≤ extent.val :=
      ⟨(Coord.scaled_mem_of_nonneg hpercent hnonneg).1,
        (Coord.scaled_le_ofFloating hpercent hnonneg).trans hfits⟩
    obtain ⟨start, finish, hends, hswipe⟩ := Rect.exists_isSwipe harea hextent hway
    obtain ⟨hstart, hfinish⟩ := hswipe.encloses harea hextent hway
    have hlifted : (f.swipe start finish speed).value.finish = finish := finish_moveAtSpeed _ _
    refine ⟨_, f.swipeOver_outcome_of_swipeEnds hends speed, hswipe.begins, ⟨hstart, ?_⟩,
      hswipe.middle, ?_, ?_, ?_, ?_⟩
    · rw [hlifted]
      exact hfinish
    · rw [hlifted]
      exact hswipe.straight
    · rw [hlifted, hswipe.reaches]
      change 0 ≤ direction.sign * ((start.along direction).val + _ - (start.along direction).val)
      rcases direction.sign_eq with hsign | hsign <;> rw [hsign] <;> omega
    · exact (f.within_swipe hstart hfinish speed).exists_pointAt_eq_ok fun _ _ hp hq =>
        hp.inRange_sub harea hq
    · intro hexact hwhole
      rw [hwhole, Coord.scaled_one hexact] at hswipe
      rw [hlifted]
      exact hswipe.along_finish hextent

/-- A swipe to the left over the whole of a very wide area. -/
theorem swipeOver_encloses_wide :
    let area : Rect := ⟨.clamp (-4611686018427387904), .clamp (-3), 0, 4⟩
    let percent : Single := .ofNat .binary32 1
    area.IsSwipeable .left ∧ IsUnit percent ∧
      ∃ g, (perform {} (.swipeOver area .left percent 0)).outcome = .ok [g] ∧
        area.Encloses g.start ∧ g.finish.along .left = area.edge .left := by
  intro area percent
  have harea : area.IsSwipeable .left :=
    ⟨by decide, by decide, by decide, by decide⟩
  have hpercent : IsUnit percent := by decide +kernel
  obtain ⟨extent, hextent, -, hanswer⟩ := swipeOver_encloses {} harea hpercent 0
  obtain rfl : (4611686018427387904 : Coord) = extent := Except.ok.inj hextent
  obtain ⟨g, hg, -, ⟨hstart, -⟩, -, -, -, -, hwhole⟩ := hanswer (by decide +kernel)
  exact ⟨harea, hpercent, g, hg, hstart, hwhole (by decide +kernel) rfl⟩

end Factory
end PointerMotion
