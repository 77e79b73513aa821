import PointerMotion.Factory.Extent
import PointerMotion.Proofs.Geometry.Axis

/-!
# The ends of a swipe over an area, in its own axes

`Rect.swipeEnds` has a branch for each direction.  They are one computation, seen along the
direction of the swipe and across it: a swipe begins on the edge behind it, halfway along that edge,
and goes ahead by a percentage of the extent.  What is *along* and what is *ahead* depends on the
direction, and only that.  `Rect.edge` is the edge that a direction points to, `Rect.extent` the
extent along it, and `Rect.crossSum` the sum of the two edges beside it.

`Rect.swipeEnds_eq` says that the branches are this one computation, and
`Rect.swipeEnds_eq_ok_iff` when it succeeds, and what the ends are.  It asks that the opposite of
the travelled way is a coordinate where the direction goes toward smaller coordinates, because the
way is turned around before it is added.
-/

namespace PointerMotion

namespace Rect

variable {area : Rect} {d : Direction} {percent : Single}

/-- The edge that a direction points to. -/
def edge (r : Rect) : Direction → Coord
  | .left => r.left
  | .right => r.right
  | .up => r.top
  | .down => r.bottom

/-- The extent along the axis of a direction. -/
def extent (r : Rect) : Direction → Except Overflow Coord
  | .left | .right => r.width
  | .up | .down => r.height

/-- The sum of the two edges beside a direction. -/
def crossSum (r : Rect) : Direction → Int
  | .left | .right => r.top.val + r.bottom.val
  | .up | .down => r.left.val + r.right.val

/-- The middle between the two edges beside a direction. -/
def middle (r : Rect) : Direction → Except Overflow Coord
  | .left | .right => r.centerY
  | .up | .down => r.centerX

theorem extent_eq_ok_iff {extent : Coord} : area.extent d = .ok extent ↔
    extent.val = d.sign * ((area.edge d).val - (area.edge d.opposite).val) := by
  cases d <;>
    rw [Rect.extent] <;>
    simp only [width, height, Coord.sub, Coord.checked_eq_ok_iff, edge, Direction.opposite,
      Direction.sign] <;>
    omega

theorem middle_eq_ok_iff {c : Coord} : area.middle d = .ok c ↔
    Coord.InRange (area.crossSum d) ∧ c.val = area.crossSum d / 2 := by
  cases d with
  | left | right => exact centerY_eq_ok_iff
  | up | down => exact centerX_eq_ok_iff

/-! ## The ends of a swipe -/

/-- **The four branches are one computation.** -/
theorem swipeEnds_eq (area : Rect) (d : Direction) (percent : Single) :
    area.swipeEnds d percent = (do
      let start := Point.ofAxes (area.edge d.opposite) (← area.middle d) d
      let way ← d.ahead ((← area.extent d).scaled percent)
      return (start, ← start.shift way d)) := by
  cases d <;> rfl

/-- The ends of a swipe that goes ahead by the given way. -/
structure IsSwipe (area : Rect) (d : Direction) (way : Int) (start finish : Point) : Prop where
  begins : start.along d = area.edge d.opposite
  middle : (start.across d).val = area.crossSum d / 2
  reaches : (finish.along d).val = (start.along d).val + d.sign * way
  straight : finish.across d = start.across d

/-- **The ends of a swipe over an area.**  They can be computed exactly if the edges beside the
direction have a sum, the edges on its axis a difference, and the way in the sense of the direction
and the end of it are coordinates. -/
theorem swipeEnds_eq_ok_iff {start finish : Point} :
    area.swipeEnds d percent = .ok (start, finish) ↔
      Coord.InRange (area.crossSum d) ∧ ∃ extent, area.extent d = .ok extent ∧
        Coord.InRange (d.sign * (extent.scaled percent).val) ∧
          area.IsSwipe d (extent.scaled percent).val start finish := by
  rw [swipeEnds_eq]
  simp only [Overflow.bind_eq_ok_iff, middle_eq_ok_iff, Direction.ahead_eq_ok_iff,
    Point.shift_eq_ok_iff, pure, Except.pure, Except.ok.injEq, Prod.mk.injEq, Point.along_ofAxes,
    Point.across_ofAxes]
  constructor
  · rintro ⟨c, ⟨hsum, hc⟩, extent, hextent, way, hway, q, ⟨hreaches, hstraight⟩, rfl, rfl⟩
    refine ⟨hsum, extent, hextent, hway ▸ way.inRange_val, ?_⟩
    constructor
    · exact Point.along_ofAxes _ _ d
    · rw [Point.across_ofAxes, hc]
    · rw [Point.along_ofAxes, hreaches, hway]
    · rw [Point.across_ofAxes, hstraight]
  · rintro ⟨hsum, extent, hextent, hway, hswipe⟩
    refine ⟨start.across d, ⟨hsum, hswipe.middle⟩, extent, hextent, ⟨_, hway.1, hway.2⟩, rfl,
      finish, ⟨?_, hswipe.straight⟩, ?_, rfl⟩
    · rw [← hswipe.begins]
      exact hswipe.reaches
    · refine Point.ext_axes d ?_ ?_
      · rw [Point.along_ofAxes, hswipe.begins]
      · rw [Point.across_ofAxes]

/-- Where the way ahead and the end of it are coordinates, the swipe has its ends. -/
theorem exists_swipeEnds_eq_ok {extent : Coord} (hsum : Coord.InRange (area.crossSum d))
    (hextent : area.extent d = .ok extent)
    (hway : Coord.InRange (d.sign * (extent.scaled percent).val))
    (hend : Coord.InRange ((area.edge d.opposite).val + d.sign * (extent.scaled percent).val)) :
    ∃ start finish, area.swipeEnds d percent = .ok (start, finish) ∧
      area.IsSwipe d (extent.scaled percent).val start finish := by
  have hmiddle : Coord.InRange (area.crossSum d / 2) := hsum.half
  have hswipe : area.IsSwipe d (extent.scaled percent).val
      (.ofAxes (area.edge d.opposite) ⟨_, hmiddle.1, hmiddle.2⟩ d)
      (.ofAxes ⟨_, hend.1, hend.2⟩ ⟨_, hmiddle.1, hmiddle.2⟩ d) := by
    constructor
    · rw [Point.along_ofAxes]
    · rw [Point.across_ofAxes]
    · rw [Point.along_ofAxes, Point.along_ofAxes]
    · rw [Point.across_ofAxes, Point.across_ofAxes]
  exact ⟨_, _, swipeEnds_eq_ok_iff.2 ⟨hsum, extent, hextent, hway, hswipe⟩, hswipe⟩

/-- The way that a swipe goes is a coordinate in the sense of its direction, and leads to one. -/
def HasSwipe (area : Rect) (d : Direction) (percent : Single) : Prop :=
  ∃ extent, area.extent d = .ok extent ∧ Coord.InRange (d.sign * (extent.scaled percent).val) ∧
    Coord.InRange ((area.edge d.opposite).val + d.sign * (extent.scaled percent).val)

/-- **When a swipe has its ends.** -/
theorem exists_swipeEnds_eq_ok_iff : (∃ ends, area.swipeEnds d percent = .ok ends) ↔
    Coord.InRange (area.crossSum d) ∧ area.HasSwipe d percent := by
  constructor
  · rintro ⟨⟨start, finish⟩, hends⟩
    obtain ⟨hsum, extent, hextent, hway, hswipe⟩ := swipeEnds_eq_ok_iff.1 hends
    have hreaches := hswipe.reaches
    rw [hswipe.begins] at hreaches
    exact ⟨hsum, extent, hextent, hway, hreaches ▸ (finish.along d).inRange_val⟩
  · rintro ⟨hsum, extent, hextent, hway, hend⟩
    obtain ⟨start, finish, hends, -⟩ := exists_swipeEnds_eq_ok hsum hextent hway hend
    exact ⟨_, hends⟩

end Rect
end PointerMotion
