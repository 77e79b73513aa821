import PointerMotion.Geometry.Point

/-!
# Rectangles on the screen

A rectangle is given by its edges.  The left and top edges belong to it, the right and bottom
edges do not, and nothing forces the edges to be in order: a rectangle whose edges meet or cross
is empty, and contains no point.

Extents and centers are computed from the edges as they are, also of an empty rectangle, and
fail where a difference or a sum of edges is no coordinate.  Where an operation computes several
coordinates, it computes them in the order of the edges: left, top, right, bottom, and `x` before
`y`.
-/

namespace PointerMotion

/-- A rectangle with its left and top edges, without its right and bottom edges. -/
@[ext] structure Rect where
  left : Coord
  top : Coord
  right : Coord
  bottom : Coord
  deriving DecidableEq, Repr, Inhabited

namespace Rect

variable (r : Rect)

/-- The rectangle between two corners. -/
def ofCorners (leftTop rightBottom : Point) : Rect :=
  ⟨leftTop.x, leftTop.y, rightBottom.x, rightBottom.y⟩

/-- The extent from left to right; negative if the edges are crossed. -/
def width : Except Overflow Coord := r.right.sub r.left

/-- The extent from top to bottom; negative if the edges are crossed. -/
def height : Except Overflow Coord := r.bottom.sub r.top

/-- The middle between left and right, rounded down. -/
def centerX : Except Overflow Coord := return (← r.left.add r.right).half

/-- The middle between top and bottom, rounded down. -/
def centerY : Except Overflow Coord := return (← r.top.add r.bottom).half

/-- The middle of the rectangle. -/
def center : Except Overflow Point := return ⟨← r.centerX, ← r.centerY⟩

/-- The rectangle holds no point. -/
def IsEmpty : Prop := r.right ≤ r.left ∨ r.bottom ≤ r.top

instance : Decidable r.IsEmpty := inferInstanceAs (Decidable (_ ∨ _))

/-- The rectangle with its vertical edges moved inward by `dx` and its horizontal ones by `dy`. -/
def withInset (dx dy : Coord) : Except Overflow Rect := do
  return ⟨← r.left.add dx, ← r.top.add dy, ← r.right.sub dx, ← r.bottom.sub dy⟩

/-- The corner where the right and the top edge meet. -/
def rightTop : Point := ⟨r.right, r.top⟩

/-- The corner where the left and the bottom edge meet. -/
def leftBottom : Point := ⟨r.left, r.bottom⟩

/-- A point is in a rectangle that is not empty if it is in both half-open ranges of the edges. -/
def Contains (p : Point) : Prop :=
  ¬ r.IsEmpty ∧ (r.left ≤ p.x ∧ p.x < r.right) ∧ (r.top ≤ p.y ∧ p.y < r.bottom)

instance (p : Point) : Decidable (r.Contains p) :=
  inferInstanceAs (Decidable (¬ _ ∧ (_ ∧ _) ∧ (_ ∧ _)))

instance : Membership Point Rect := ⟨Contains⟩

instance (p : Point) : Decidable (p ∈ r) := inferInstanceAs (Decidable (r.Contains p))

variable {r}

/-- Half of a checked sum. -/
theorem half_add_eq_ok_iff {a b c : Coord} :
    (do return (← a.add b).half : Except Overflow Coord) = .ok c ↔
      Coord.InRange (a.val + b.val) ∧ c.val = (a.val + b.val) / 2 := by
  rw [Overflow.bind_eq_ok_iff]
  constructor
  · rintro ⟨sum, hsum, hc⟩
    have hval : sum.val = a.val + b.val := Coord.checked_eq_ok_iff.1 hsum
    obtain rfl : sum.half = c := Except.ok.inj hc
    exact ⟨hval ▸ sum.inRange_val, by rw [Coord.val_half, hval]⟩
  · rintro ⟨hsum, hc⟩
    exact ⟨⟨_, hsum.1, hsum.2⟩, Coord.checked_eq_ok_iff.2 rfl,
      congrArg Except.ok (Coord.ext hc.symm)⟩

theorem centerX_eq_ok_iff {c : Coord} : r.centerX = .ok c ↔
    Coord.InRange (r.left.val + r.right.val) ∧ c.val = (r.left.val + r.right.val) / 2 :=
  half_add_eq_ok_iff

theorem centerY_eq_ok_iff {c : Coord} : r.centerY = .ok c ↔
    Coord.InRange (r.top.val + r.bottom.val) ∧ c.val = (r.top.val + r.bottom.val) / 2 :=
  half_add_eq_ok_iff

theorem center_eq_ok_iff {c : Point} :
    r.center = .ok c ↔ r.centerX = .ok c.x ∧ r.centerY = .ok c.y := by
  simp only [center, Overflow.bind_eq_ok_iff, pure, Except.pure, Except.ok.injEq]
  constructor
  · rintro ⟨x, hx, y, hy, rfl⟩
    exact ⟨hx, hy⟩
  · rintro ⟨hx, hy⟩
    exact ⟨c.x, hx, c.y, hy, rfl⟩

theorem withInset_eq_ok_iff {inset : Rect} {dx dy : Coord} :
    r.withInset dx dy = .ok inset ↔
      inset.left.val = r.left.val + dx.val ∧ inset.top.val = r.top.val + dy.val ∧
        inset.right.val = r.right.val - dx.val ∧ inset.bottom.val = r.bottom.val - dy.val := by
  simp only [withInset, Overflow.bind_eq_ok_iff, Coord.add, Coord.sub, Coord.checked_eq_ok_iff,
    pure, Except.pure, Except.ok.injEq]
  constructor
  · rintro ⟨left, hl, top, ht, right, hr, bottom, hb, rfl⟩
    exact ⟨hl, ht, hr, hb⟩
  · rintro ⟨hl, ht, hr, hb⟩
    exact ⟨_, hl, _, ht, _, hr, _, hb, rfl⟩

theorem isEmpty_iff : r.IsEmpty ↔ r.right.val ≤ r.left.val ∨ r.bottom.val ≤ r.top.val := Iff.rfl

/-- Emptiness needs no case of its own: no point is between edges that meet or cross. -/
theorem mem_iff {p : Point} : p ∈ r ↔
    (r.left.val ≤ p.x.val ∧ p.x.val < r.right.val) ∧
      (r.top.val ≤ p.y.val ∧ p.y.val < r.bottom.val) := by
  refine ⟨And.right, fun hp => ⟨?_, hp⟩⟩
  rw [isEmpty_iff]
  omega

/-- An empty rectangle has no point, and any other has its left top corner. -/
theorem isEmpty_iff_forall_notMem : r.IsEmpty ↔ ∀ p : Point, p ∉ r := by
  rw [isEmpty_iff]
  constructor
  · rintro h p hp
    rw [mem_iff] at hp
    omega
  · intro h
    have := h ⟨r.left, r.top⟩
    rw [mem_iff] at this
    dsimp only at this
    omega

variable (r)

/-- A rectangle as it appears in messages. -/
def text : String := s!"[{r.left.text}, {r.top.text}, {r.right.text}, {r.bottom.text}]"

end Rect
end PointerMotion
