import PointerMotion.Proofs.Factory.SwipeEnds

/-!
# The paths of a pinch, axis by axis

A pinch keeps a margin from the edges of its area, and its fingers travel from there by a percentage
of half of what the margins leave.  On each axis the two fingers do the same in opposite senses: the
one at the lower edge goes forward by the travel, and the one at the upper edge goes back by it.
They change places between the axes, because the finger at the left begins at the bottom.

`PinchPath.over_eq_ok_iff` says which paths these are.  Whether there are any is a question about
each axis alone (`PinchPath.exists_over_eq_ok_iff`): the opposite of the travel has to be a
coordinate, and so do both ends of both ways (`Rect.HasTravel`).
-/

namespace PointerMotion

variable {area : Rect} {percent : Single}

/-- How far a finger travels: a percentage of half of what the margins leave. -/
theorem pinchTravel_eq_ok_iff {extent travel : Coord} :
    pinchTravel extent percent = .ok travel ↔
      ∃ rest : Coord, rest.val = extent.val - 10 ∧ rest.halfTowardZero.scaled percent = travel := by
  simp only [pinchTravel, Overflow.bind_eq_ok_iff, Coord.sub, Coord.checked_eq_ok_iff, pure,
    Except.pure, Except.ok.injEq]
  rfl

namespace PinchPath

/-- The paths whose fingers travel `dx` and `dy` from the margins of an area. -/
structure IsPinch (area : Rect) (dx dy : Int) (path : PinchPath) : Prop where
  left : path.bottomLeft.outer.x.val = area.left.val + 5
  bottom : path.bottomLeft.outer.y.val = area.bottom.val - 5
  right : path.topRight.outer.x.val = area.right.val - 5
  top : path.topRight.outer.y.val = area.top.val + 5
  leftTravels : path.bottomLeft.inner.x.val = area.left.val + 5 + dx
  bottomTravels : path.bottomLeft.inner.y.val = area.bottom.val - 5 - dy
  rightTravels : path.topRight.inner.x.val = area.right.val - 5 - dx
  topTravels : path.topRight.inner.y.val = area.top.val + 5 + dy

/-- **The paths of a pinch.** -/
theorem over_eq_ok_iff {path : PinchPath} : PinchPath.over area percent = .ok path ↔
    ∃ width height dx dy, (area.width = .ok width ∧ pinchTravel width percent = .ok dx) ∧
      (area.height = .ok height ∧ pinchTravel height percent = .ok dy) ∧
      Coord.InRange (-dx.val) ∧ Coord.InRange (-dy.val) ∧ path.IsPinch area dx.val dy.val := by
  have hmargin : pinchMargin.val = 5 := rfl
  simp only [PinchPath.over, Overflow.bind_eq_ok_iff, Rect.withInset_eq_ok_iff, Coord.neg,
    Coord.checked_eq_ok_iff, Point.offset_eq_ok_iff, pure, Except.pure, Except.ok.injEq]
  constructor
  · rintro ⟨width, hwidth, dx, hdx, height, hheight, dy, hdy, inset, ⟨hl, ht, hr, hb⟩, up, hup,
      p, ⟨hpx, hpy⟩, back, hback, q, ⟨hqx, hqy⟩, rfl⟩
    refine ⟨width, height, dx, dy, ⟨hwidth, hdx⟩, ⟨hheight, hdy⟩, hback ▸ back.inRange_val,
      hup ▸ up.inRange_val, ?_⟩
    dsimp only [Rect.leftBottom, Rect.rightTop] at hpx hpy hqx hqy
    constructor <;> dsimp only [Rect.leftBottom, Rect.rightTop] <;> omega
  · rintro ⟨width, height, dx, dy, ⟨hwidth, hdx⟩, ⟨hheight, hdy⟩, hback, hup, hpath⟩
    obtain ⟨hl, hb, hr, ht, hpx, hpy, hqx, hqy⟩ := hpath
    refine ⟨width, hwidth, dx, hdx, height, hheight, dy, hdy,
      ⟨path.bottomLeft.outer.x, path.topRight.outer.y, path.topRight.outer.x,
        path.bottomLeft.outer.y⟩, ⟨hl, ht, hr, hb⟩, ⟨_, hup.1, hup.2⟩, rfl, path.bottomLeft.inner,
      ⟨?_, ?_⟩, ⟨_, hback.1, hback.2⟩, rfl, path.topRight.inner, ⟨?_, ?_⟩, rfl⟩ <;>
      dsimp only [Rect.leftBottom, Rect.rightTop] <;>
      omega

end PinchPath

namespace Rect

/-- On the axis of a direction, both fingers begin and end at coordinates. -/
def HasTravel (area : Rect) (d : Direction) (travel : Int) : Prop :=
  (Coord.InRange ((area.edge d.opposite).val + 5) ∧
      Coord.InRange ((area.edge d.opposite).val + 5 + travel)) ∧
    Coord.InRange ((area.edge d).val - 5) ∧ Coord.InRange ((area.edge d).val - 5 - travel)

/-- On the axis of a direction, the travel of the fingers can be turned around, and leads each of
them to a coordinate. -/
def HasPinch (area : Rect) (d : Direction) (percent : Single) : Prop :=
  ∃ extent travel, area.extent d = .ok extent ∧ pinchTravel extent percent = .ok travel ∧
    Coord.InRange (-travel.val) ∧ area.HasTravel d travel.val

end Rect

namespace PinchPath

theorem exists_isPinch_iff {dx dy : Int} : (∃ path : PinchPath, path.IsPinch area dx dy) ↔
    area.HasTravel .right dx ∧ area.HasTravel .down dy := by
  constructor
  · rintro ⟨path, hl, hb, hr, ht, hpx, hpy, hqx, hqy⟩
    refine ⟨⟨⟨?_, ?_⟩, ?_, ?_⟩, ⟨?_, ?_⟩, ?_, ?_⟩
    · exact hl ▸ path.bottomLeft.outer.x.inRange_val
    · exact hpx ▸ path.bottomLeft.inner.x.inRange_val
    · exact hr ▸ path.topRight.outer.x.inRange_val
    · exact hqx ▸ path.topRight.inner.x.inRange_val
    · exact ht ▸ path.topRight.outer.y.inRange_val
    · exact hqy ▸ path.topRight.inner.y.inRange_val
    · exact hb ▸ path.bottomLeft.outer.y.inRange_val
    · exact hpy ▸ path.bottomLeft.inner.y.inRange_val
  · rintro ⟨⟨⟨hl, hpx⟩, hr, hqx⟩, ⟨ht, hqy⟩, hb, hpy⟩
    let bottomLeft : FingerPath :=
      ⟨⟨⟨_, hl.1, hl.2⟩, ⟨_, hb.1, hb.2⟩⟩, ⟨⟨_, hpx.1, hpx.2⟩, ⟨_, hpy.1, hpy.2⟩⟩⟩
    let topRight : FingerPath :=
      ⟨⟨⟨_, hr.1, hr.2⟩, ⟨_, ht.1, ht.2⟩⟩, ⟨⟨_, hqx.1, hqx.2⟩, ⟨_, hqy.1, hqy.2⟩⟩⟩
    exact ⟨⟨bottomLeft, topRight⟩, rfl, rfl, rfl, rfl, rfl, rfl, rfl, rfl⟩

/-- **When a pinch has its paths.** -/
theorem exists_over_eq_ok_iff : (∃ path, PinchPath.over area percent = .ok path) ↔
    area.HasPinch .right percent ∧ area.HasPinch .down percent := by
  constructor
  · rintro ⟨path, hpath⟩
    obtain ⟨width, height, dx, dy, ⟨hwidth, hdx⟩, ⟨hheight, hdy⟩, hback, hup, hpinch⟩ :=
      over_eq_ok_iff.1 hpath
    obtain ⟨hx, hy⟩ := exists_isPinch_iff.1 ⟨path, hpinch⟩
    exact ⟨⟨width, dx, hwidth, hdx, hback, hx⟩, ⟨height, dy, hheight, hdy, hup, hy⟩⟩
  · rintro ⟨⟨width, dx, hwidth, hdx, hback, hx⟩, ⟨height, dy, hheight, hdy, hup, hy⟩⟩
    obtain ⟨path, hpinch⟩ := exists_isPinch_iff.2 ⟨hx, hy⟩
    exact ⟨path, over_eq_ok_iff.2
      ⟨width, height, dx, dy, ⟨hwidth, hdx⟩, ⟨hheight, hdy⟩, hback, hup, hpinch⟩⟩

end PinchPath
end PointerMotion
