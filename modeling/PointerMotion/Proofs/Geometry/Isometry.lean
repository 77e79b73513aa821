import PointerMotion.Geometry.Direction
import PointerMotion.Geometry.Rect
import PointerMotion.Proofs.Geometry.Distance

/-!
# Shifts, mirrors and the exchange of the axes

Three kinds of maps of the screen are compared with what the library computes: a shift of both
coordinates, a mirror along the axis of a direction, and the exchange of the two axes.  The first
two leave the range of coordinates for some points, so they are relations between points,
`Point.IsShift` and `Point.IsMirror`; only the third is a map, `Point.transpose`.

All three keep distances, each for a reason of its own.

* A mirror takes a difference of floating-point coordinates to its opposite, because rounding does
  not look at the sign.
* An exchange of the axes exchanges the legs of a triangle, and the hypotenuse stays.
* A shift keeps the difference of two integers.  A distance is made of the differences of the
  *rounded* coordinates, so this is enough only where rounding changes nothing: for coordinates
  within `2 ^ 53`, before and after the shift (`Point.StaysExact`).
-/

namespace PointerMotion

/-! ## Gaps -/

namespace Coord

open Floating (Format)

/-- Opposite pairs have the same gap. -/
theorem sameGap_of_neg {a b a' b' : Coord} (ha : a'.val = -a.val) (hb : b'.val = -b.val) :
    SameGap a b a' b' := by
  refine sameGap_of_natAbs_eq ?_
  rw [ha, hb, Format.nearestInt_neg, Format.nearestInt_neg]
  omega

/-- Where double precision has every integer, shifted pairs have the same gap. -/
theorem sameGap_of_add {a b a' b' : Coord} {k : Int} (ha : a'.val = a.val + k)
    (hb : b'.val = b.val + k) (hexact : ∀ c ∈ [a, b, a', b'], c.val.natAbs ≤ 2 ^ 53) :
    SameGap a b a' b' := by
  have hnearest : ∀ c ∈ [a, b, a', b'],
      Format.binary64.nearestInt c.val = c.val * Format.binary64.unit :=
    fun c hc => Format.nearestInt_of_natAbs_le (hexact c hc)
  simp only [List.forall_mem_cons] at hnearest
  obtain ⟨h₁, h₂, h₃, h₄, -⟩ := hnearest
  refine sameGap_of_natAbs_eq ?_
  rw [h₁, h₂, h₃, h₄, ← Int.sub_mul, ← Int.sub_mul, ha, hb, Int.add_sub_add_right]

end Coord

/-! ## Points -/

namespace Point

variable {p q p' q' : Point}

/-- The second point is the first one, shifted by `dx` and `dy`. -/
structure IsShift (dx dy : Int) (p p' : Point) : Prop where
  x : p'.x.val = p.x.val + dx
  y : p'.y.val = p.y.val + dy

/-- Both coordinates are within `2 ^ 53`, and so they are after a shift by `dx` and `dy`. -/
structure StaysExact (dx dy : Int) (p : Point) : Prop where
  x : p.x.val.natAbs ≤ 2 ^ 53
  y : p.y.val.natAbs ≤ 2 ^ 53
  shiftedX : (p.x.val + dx).natAbs ≤ 2 ^ 53
  shiftedY : (p.y.val + dy).natAbs ≤ 2 ^ 53

variable {dx dy : Int}

theorem StaysExact.exists_isShift (h : p.StaysExact dx dy) : ∃ p', p.IsShift dx dy p' := by
  obtain ⟨-, -, hx, hy⟩ := h
  exact ⟨⟨⟨p.x.val + dx, by omega, by omega⟩, ⟨p.y.val + dy, by omega, by omega⟩⟩, rfl, rfl⟩

/-- **A shift keeps distances** where all coordinates are exact. -/
theorem IsShift.distance_eq (hp : p.IsShift dx dy p') (hq : q.IsShift dx dy q')
    (hpe : p.StaysExact dx dy) (hqe : q.StaysExact dx dy) : p'.distance q' = p.distance q := by
  refine distance_eq_of_sameGap (Coord.sameGap_of_add hp.x hq.x ?_)
    (Coord.sameGap_of_add hp.y hq.y ?_)
  · simp only [List.forall_mem_cons, hp.x, hq.x]
    exact ⟨hpe.x, hqe.x, hpe.shiftedX, hqe.shiftedX, by simp⟩
  · simp only [List.forall_mem_cons, hp.y, hq.y]
    exact ⟨hpe.y, hqe.y, hpe.shiftedY, hqe.shiftedY, by simp⟩

/-- The second point is the mirror image of the first one along the axis of a direction. -/
def IsMirror (d : Direction) (p p' : Point) : Prop :=
  match d with
  | .left | .right => p'.x.val = -p.x.val ∧ p'.y = p.y
  | .up | .down => p'.x = p.x ∧ p'.y.val = -p.y.val

/-- **A mirror keeps distances.** -/
theorem IsMirror.distance_eq {d : Direction} (hp : p.IsMirror d p') (hq : q.IsMirror d q') :
    p'.distance q' = p.distance q := by
  cases d with
  | left | right =>
    refine distance_eq_of_sameGap (Coord.sameGap_of_neg hp.1 hq.1) ?_
    rw [hp.2, hq.2]
    exact .inl rfl
  | up | down =>
    refine distance_eq_of_sameGap ?_ (Coord.sameGap_of_neg hp.2 hq.2)
    rw [hp.1, hq.1]
    exact .inl rfl

/-- The point with its coordinates exchanged. -/
def transpose (p : Point) : Point := ⟨p.y, p.x⟩

/-- **An exchange of the axes keeps distances.** -/
theorem distance_transpose (p q : Point) : p.transpose.distance q.transpose = p.distance q :=
  Floating.hypot_comm _ _

end Point

/-! ## Rectangles and directions -/

namespace Rect

/-- The second rectangle is the first one, shifted by `dx` and `dy`. -/
structure IsShift (dx dy : Int) (r r' : Rect) : Prop where
  left : r'.left.val = r.left.val + dx
  top : r'.top.val = r.top.val + dy
  right : r'.right.val = r.right.val + dx
  bottom : r'.bottom.val = r.bottom.val + dy

/-- The second rectangle is the mirror image of the first one along the axis of a direction, with
its edges in the same order. -/
def IsMirror (d : Direction) (r r' : Rect) : Prop :=
  match d with
  | .left | .right => r'.left.val = -r.right.val ∧ r'.right.val = -r.left.val ∧
      r'.top = r.top ∧ r'.bottom = r.bottom
  | .up | .down => r'.left = r.left ∧ r'.right = r.right ∧
      r'.top.val = -r.bottom.val ∧ r'.bottom.val = -r.top.val

/-- The rectangle with its axes exchanged. -/
def transpose (r : Rect) : Rect := ⟨r.top, r.left, r.bottom, r.right⟩

end Rect

/-- The direction on the other axis that points in the same sense. -/
def Direction.transpose : Direction → Direction
  | left => up
  | up => left
  | right => down
  | down => right

end PointerMotion
