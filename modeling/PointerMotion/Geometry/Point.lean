import PointerMotion.Coord.Floating
import PointerMotion.Floating.Arithmetic

/-!
# Points on the screen

A point has two coordinates; `x` grows to the right and `y` grows downward.  Moving a point is
checked coordinate by coordinate, `x` before `y`, so a shift that leaves the range in both
reports the failure of `x`.

The distance of two points is a floating-point number.  Coordinates are rounded *before* they
are subtracted, which keeps the difference of any two coordinates finite and makes the distance
symmetric; the price is that far from the origin distinct points can have distance zero.
-/

namespace PointerMotion

/-- A place on the screen. -/
@[ext] structure Point where
  x : Coord
  y : Coord
  deriving DecidableEq, Repr, Inhabited

namespace Point

/-- A point from coordinates of half the width, which are all in range. -/
def ofInt32 (x y : Int32) : Point :=
  ⟨.clamp x.toInt, .clamp y.toInt⟩

/-- The point shifted by `dx` and `dy`. -/
def offset (p : Point) (dx dy : Coord) : Except Overflow Point := do
  return ⟨← p.x.add dx, ← p.y.add dy⟩

theorem offset_eq_ok_iff {p q : Point} {dx dy : Coord} :
    p.offset dx dy = .ok q ↔ q.x.val = p.x.val + dx.val ∧ q.y.val = p.y.val + dy.val := by
  simp only [offset, bind, Except.bind, pure, Except.pure, Coord.add]
  cases hx : Coord.checked .addition (p.x.val + dx.val) with
  | error e =>
    have := (Coord.checked_eq_error_iff.1 hx).1
    simp only [reduceCtorEq, false_iff, not_and]
    intro h
    exact absurd (h ▸ q.x.inRange_val) this
  | ok x =>
    cases hy : Coord.checked .addition (p.y.val + dy.val) with
    | error e =>
      have := (Coord.checked_eq_error_iff.1 hy).1
      simp only [reduceCtorEq, false_iff, not_and]
      intro _ h
      exact absurd (h ▸ q.y.inRange_val) this
    | ok y =>
      rw [Coord.checked_eq_ok_iff] at hx hy
      simp only [Except.ok.injEq, Point.ext_iff, Coord.ext_iff, hx, hy, eq_comm]

/-- The Euclidean distance between two points. -/
def distance (p q : Point) : Double :=
  .hypot (q.x.toDouble - p.x.toDouble) (q.y.toDouble - p.y.toDouble)

/-- A point as it appears in messages. -/
def text (p : Point) : String := s!"({p.x.text}, {p.y.text})"

end Point
end PointerMotion
