import PointerMotion.Geometry.Direction
import PointerMotion.Geometry.Point

/-!
# Directions and axes

A direction has an axis and a sense.  `Point.along` is the coordinate of a point on the axis and
`Point.across` the other one; `Direction.sign` is the sense, `1` toward greater coordinates and
`-1` toward smaller ones.  What is said of `along` and `sign` for every direction is said of both
coordinates at once, and in both senses.  A bound on both coordinates (`Point.IsNear`) is one of
these statements.
-/

namespace PointerMotion

namespace Direction

/-- The other direction on the same axis. -/
def opposite : Direction → Direction
  | left => right
  | right => left
  | up => down
  | down => up

/-- What does not depend on the sense of a direction is said of all directions by saying it of both
axes. -/
theorem forall_iff {P : Direction → Prop} (hx : P left ↔ P right) (hy : P up ↔ P down) :
    (∀ d, P d) ↔ P left ∧ P up := by
  constructor
  · intro h
    exact ⟨h left, h up⟩
  · rintro ⟨hleft, hup⟩ d
    cases d with
    | left => exact hleft
    | right => exact hx.1 hleft
    | up => exact hup
    | down => exact hy.1 hup

/-- The sense of a direction on its axis. -/
def sign : Direction → Int
  | left | up => -1
  | right | down => 1

theorem sign_eq (d : Direction) : d.sign = -1 ∨ d.sign = 1 := by
  cases d <;> decide

/-- A way along the axis, taken in the sense of the direction. -/
def ahead (d : Direction) (way : Coord) : Except Overflow Coord :=
  match d with
  | left | up => way.neg
  | right | down => .ok way

theorem ahead_eq_ok_iff {d : Direction} {way c : Coord} :
    d.ahead way = .ok c ↔ c.val = d.sign * way.val := by
  cases d with
  | left | up => rw [ahead, Coord.neg, Coord.checked_eq_ok_iff, sign, Int.neg_one_mul]
  | right | down => rw [ahead, Except.ok.injEq, sign, Int.one_mul, Coord.ext_iff, eq_comm]

end Direction

namespace Point

/-- The coordinate of a point on the axis of a direction. -/
def along (p : Point) : Direction → Coord
  | .left | .right => p.x
  | .up | .down => p.y

/-- The other coordinate of a point. -/
def across (p : Point) : Direction → Coord
  | .left | .right => p.y
  | .up | .down => p.x

/-- The point with the given coordinates along and across a direction. -/
def ofAxes (along across : Coord) : Direction → Point
  | .left | .right => ⟨along, across⟩
  | .up | .down => ⟨across, along⟩

@[simp] theorem along_ofAxes (a c : Coord) (d : Direction) : (ofAxes a c d).along d = a := by
  cases d <;> rfl

@[simp] theorem across_ofAxes (a c : Coord) (d : Direction) : (ofAxes a c d).across d = c := by
  cases d <;> rfl

theorem ext_axes {p q : Point} (d : Direction) (halong : p.along d = q.along d)
    (hacross : p.across d = q.across d) : p = q := by
  cases d with
  | left | right => exact Point.ext halong hacross
  | up | down => exact Point.ext hacross halong

/-- The point shifted along the axis of a direction. -/
def shift (p : Point) (way : Coord) : Direction → Except Overflow Point
  | .left | .right => p.offset way 0
  | .up | .down => p.offset 0 way

theorem shift_eq_ok_iff {p q : Point} {way : Coord} {d : Direction} :
    p.shift way d = .ok q ↔
      (q.along d).val = (p.along d).val + way.val ∧ q.across d = p.across d := by
  cases d with
  | left | right =>
    rw [shift, offset_eq_ok_iff, along, across, along, across, Coord.ext_iff, Coord.val_zero,
      Int.add_zero]
  | up | down =>
    rw [shift, offset_eq_ok_iff, along, across, along, across, Coord.ext_iff, Coord.val_zero,
      Int.add_zero, and_comm]

end Point

/-! ## Points near the origin -/

namespace Point

/-- Both coordinates are at most `reach` away from zero. -/
structure IsNear (reach : Nat) (p : Point) : Prop where
  x : p.x.val.natAbs ≤ reach
  y : p.y.val.natAbs ≤ reach

instance (reach : Nat) (p : Point) : Decidable (p.IsNear reach) :=
  decidable_of_iff (p.x.val.natAbs ≤ reach ∧ p.y.val.natAbs ≤ reach)
    ⟨fun h => ⟨h.1, h.2⟩, fun h => ⟨h.x, h.y⟩⟩

variable {reach : Nat} {p : Point}

theorem IsNear.along (h : p.IsNear reach) : ∀ d, (p.along d).val.natAbs ≤ reach := by
  rw [Direction.forall_iff Iff.rfl Iff.rfl]
  exact ⟨h.x, h.y⟩

theorem IsNear.mono (h : p.IsNear reach) {reach' : Nat} (hle : reach ≤ reach') :
    p.IsNear reach' :=
  ⟨Nat.le_trans h.x hle, Nat.le_trans h.y hle⟩

end Point

end PointerMotion
