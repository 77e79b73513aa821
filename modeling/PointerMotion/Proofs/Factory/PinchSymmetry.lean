import PointerMotion.Proofs.Factory.PinchEnds
import PointerMotion.Proofs.Factory.Scaling
import PointerMotion.Proofs.Gesture.Building

/-!
# The fingers of a pinch are opposite each other and do not cross

Both fingers keep the same margins and travel equally far, one from the left and bottom edges of the
area and the other from the right and top ones.  So at both ends of the pinch they are *opposite*
each other (`Rect.IsOpposite`), whatever the area and the percentage are: also where the edges are
crossed, and where the fingers pass each other.

They do not pass each other if none of them travels further than half of what the margins leave.
The percentage is taken of this half, so for a percentage between zero and one it is enough that
single precision does not make the half longer.  What is left between the fingers by the whole of a
half is what halving cut off: nothing, or one.
-/

namespace PointerMotion

/-- The second point is as far from the right and top edges as the first one is from the left and
bottom edges. -/
structure Rect.IsOpposite (area : Rect) (p q : Point) : Prop where
  x : p.x.val - area.left.val = area.right.val - q.x.val
  y : area.bottom.val - p.y.val = q.y.val - area.top.val

/-- The first point is not to the right of the second one, and not above it. -/
structure Point.IsBelowLeft (p q : Point) : Prop where
  x : p.x.val ≤ q.x.val
  y : q.y.val ≤ p.y.val

/-! ## The paths -/

/-- A percentage of an extent that single precision does not make longer is part of the extent. -/
theorem Coord.scaled_mem_of_fits {extent : Coord} {percent : Single} (h : IsUnit percent)
    (hextent : 0 ≤ extent.val) (hfits : ofFloating extent.toSingle ≤ extent) :
    0 ≤ (extent.scaled percent).val ∧ (extent.scaled percent).val ≤ extent.val :=
  ⟨(scaled_mem_of_nonneg h hextent).1, (scaled_le_ofFloating h hextent).trans hfits⟩

namespace PinchPath

variable {area : Rect} {percent : Single} {path : PinchPath} {dx dy : Int}

/-- **The fingers are opposite each other** near the corners and near the center. -/
theorem IsPinch.isOpposite (h : path.IsPinch area dx dy) :
    area.IsOpposite path.bottomLeft.outer path.topRight.outer ∧
      area.IsOpposite path.bottomLeft.inner path.topRight.inner := by
  obtain ⟨hl, hb, hr, ht, hpx, hpy, hqx, hqy⟩ := h
  constructor <;> constructor <;> omega

/-- **The fingers do not cross**, and come nearer to each other, if each travels forward by half of
what the margins leave at most. -/
theorem IsPinch.isBelowLeft (h : path.IsPinch area dx dy)
    (hx : 0 ≤ dx ∧ 2 * dx ≤ area.right.val - area.left.val - 10)
    (hy : 0 ≤ dy ∧ 2 * dy ≤ area.bottom.val - area.top.val - 10) :
    path.bottomLeft.outer.IsBelowLeft path.bottomLeft.inner ∧
      path.bottomLeft.inner.IsBelowLeft path.topRight.inner ∧
      path.topRight.inner.IsBelowLeft path.topRight.outer := by
  obtain ⟨hl, hb, hr, ht, hpx, hpy, hqx, hqy⟩ := h
  refine ⟨?_, ?_, ?_⟩ <;> constructor <;> omega

/-- What is left between the fingers. -/
theorem IsPinch.inner_sub (h : path.IsPinch area dx dy) :
    path.topRight.inner.x.val - path.bottomLeft.inner.x.val =
        area.right.val - area.left.val - 10 - 2 * dx ∧
      path.bottomLeft.inner.y.val - path.topRight.inner.y.val =
        area.bottom.val - area.top.val - 10 - 2 * dy := by
  obtain ⟨hl, hb, hr, ht, hpx, hpy, hqx, hqy⟩ := h
  omega

/-- The paths of a pinch in terms of the halves of what the margins leave. -/
theorem exists_halves_of_over_eq_ok (h : PinchPath.over area percent = .ok path) :
    ∃ hx hy : Coord, hx.val = (area.right.val - area.left.val - 10).tdiv 2 ∧
      hy.val = (area.bottom.val - area.top.val - 10).tdiv 2 ∧
      path.IsPinch area (hx.scaled percent).val (hy.scaled percent).val := by
  obtain ⟨width, height, dx, dy, ⟨hwidth, hdx⟩, ⟨hheight, hdy⟩, -, -, hpinch⟩ := over_eq_ok_iff.1 h
  obtain ⟨restX, hrestX, rfl⟩ := pinchTravel_eq_ok_iff.1 hdx
  obtain ⟨restY, hrestY, rfl⟩ := pinchTravel_eq_ok_iff.1 hdy
  rw [Rect.width, Coord.sub, Coord.checked_eq_ok_iff] at hwidth
  rw [Rect.height, Coord.sub, Coord.checked_eq_ok_iff] at hheight
  refine ⟨restX.halfTowardZero, restY.halfTowardZero, ?_, ?_, hpinch⟩
  · rw [Coord.val_halfTowardZero, hrestX, hwidth]
  · rw [Coord.val_halfTowardZero, hrestY, hheight]

end PinchPath

/-! ## The gestures -/

namespace Factory

open Gesture

variable (f : Factory) {area : Rect} {percent : Single} {speed : UInt32} {gestures : List Gesture}

/-- **The fingers of a pinch are symmetric and do not cross.**  A pinch toward the center that is
answered at all, over any area and for any percentage, has two fingers, which are opposite each
other in the area where they start and where they end.

If moreover the extents are no less than ten, let `hx` and `hy` be the halves of what the margins
leave of them.

* For a percentage between zero and one, and halves that single precision does not make longer, the
  fingers do not cross, and none of them goes away from the other on any axis.
* For the whole of halves that are values of single precision, what is left between the fingers is
  what halving has cut off. -/
theorem pinchClose_symmetric
    (h : (f.perform (.pinchClose area percent speed)).outcome = .ok gestures) :
    ∃ bottomLeft topRight, gestures = [bottomLeft, topRight] ∧
      area.IsOpposite bottomLeft.start topRight.start ∧
      area.IsOpposite bottomLeft.finish topRight.finish ∧
      ∃ hx hy : Coord, hx.val = (area.right.val - area.left.val - 10).tdiv 2 ∧
        hy.val = (area.bottom.val - area.top.val - 10).tdiv 2 ∧
        (10 ≤ area.right.val - area.left.val → 10 ≤ area.bottom.val - area.top.val →
          (IsUnit percent → Coord.ofFloating hx.toSingle ≤ hx → Coord.ofFloating hy.toSingle ≤ hy →
            bottomLeft.start.IsBelowLeft bottomLeft.finish ∧
              bottomLeft.finish.IsBelowLeft topRight.finish ∧
              topRight.finish.IsBelowLeft topRight.start) ∧
          (hx.IsExact .binary32 → hy.IsExact .binary32 → percent = .ofNat .binary32 1 →
            topRight.finish.x.val - bottomLeft.finish.x.val =
                (area.right.val - area.left.val - 10) % 2 ∧
              bottomLeft.finish.y.val - topRight.finish.y.val =
                (area.bottom.val - area.top.val - 10) % 2)) := by
  obtain ⟨path, hpath, rfl⟩ := f.perform_pinchClose_eq_ok_iff.1 h
  obtain ⟨hx, hy, hxval, hyval, hpinch⟩ := PinchPath.exists_halves_of_over_eq_ok hpath
  have hfinish (p q : Point) : ((f.swipe p q speed).value.pause pinchRest).finish = q := by
    rw [finish_pause, finish_swipe]
  obtain ⟨houter, hinner⟩ := hpinch.isOpposite
  refine ⟨_, _, rfl, houter, ?_, hx, hy, hxval, hyval, fun hwidth hheight => ?_⟩
  · rw [hfinish, hfinish]
    exact hinner
  -- the margins leave something, so a half of it is rounded down
  rw [Int.tdiv_eq_ediv_of_nonneg (by omega)] at hxval hyval
  rw [hfinish, hfinish]
  refine ⟨fun hpercent hfitsX hfitsY => ?_, fun hexactX hexactY hwhole => ?_⟩
  · have htravelX := Coord.scaled_mem_of_fits hpercent (by omega) hfitsX
    have htravelY := Coord.scaled_mem_of_fits hpercent (by omega) hfitsY
    exact hpinch.isBelowLeft (by omega) (by omega)
  · rw [hwhole, Coord.scaled_one hexactX, Coord.scaled_one hexactY] at hpinch
    have hleft := hpinch.inner_sub
    omega

/-- The whole of an area of odd width: the fingers end next to each other. -/
theorem pinchClose_symmetric_odd :
    let area : Rect := ⟨.clamp (-10), 0, 11, 20⟩
    let percent : Single := .ofNat .binary32 1
    ∃ bottomLeft topRight,
      (perform {} (.pinchClose area percent 0)).outcome = .ok [bottomLeft, topRight] ∧
        area.IsOpposite bottomLeft.finish topRight.finish ∧
        bottomLeft.finish.IsBelowLeft topRight.finish ∧
        topRight.finish.x.val - bottomLeft.finish.x.val = 1 ∧
        bottomLeft.finish.y.val - topRight.finish.y.val = 0 := by
  intro area percent
  let path : PinchPath :=
    ⟨⟨⟨.clamp (-5), 15⟩, ⟨0, 10⟩⟩, ⟨⟨6, 5⟩, ⟨1, 10⟩⟩⟩
  have hpath : PinchPath.over area percent = .ok path := by decide +kernel
  have hanswer : (perform {} (.pinchClose area percent 0)).outcome = .ok _ :=
    (perform_pinchClose_eq_ok_iff {}).2 ⟨path, hpath, rfl⟩
  have hpercent : IsUnit percent := by decide +kernel
  obtain ⟨bottomLeft, topRight, hpair, -, hopposite, hx, hy, hxval, hyval, hten⟩ :=
    pinchClose_symmetric {} hanswer
  obtain rfl : hx = 5 := Coord.ext hxval
  obtain rfl : hy = 5 := Coord.ext hyval
  obtain ⟨hcross, hleft⟩ := hten (by decide) (by decide)
  obtain ⟨-, hbelow, -⟩ := hcross hpercent (by decide +kernel) (by decide +kernel)
  obtain ⟨hone, hnone⟩ := hleft (by decide +kernel) (by decide +kernel) rfl
  exact ⟨bottomLeft, topRight, hanswer.trans (congrArg Except.ok hpair), hopposite, hbelow, hone,
    hnone⟩

end Factory
end PointerMotion
