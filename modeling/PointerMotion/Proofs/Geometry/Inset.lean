import PointerMotion.Proofs.Geometry.Isometry

/-!
# Centers, insets and what a rectangle contains

The edges of a rectangle need not be in order, and the laws of this file do not ask for it.  They
ask only that what is computed can be computed, and say when this is so.

The center is half of a sum of edges, rounded down.  Rounding down can reach the lower edge and
cannot reach the upper one, and of these two only the lower one belongs to the rectangle: so a
rectangle that is not empty contains its center (`Rect.center_mem`).

An inset moves the edges inward.  This is the same as moving a point outward, in both senses at
once: the point is in the inset if the rectangle contains it after the shift and after the opposite
one (`Rect.mem_withInset_iff`).  On each axis, a shift is asked about one edge only; the other edge
is on the side that the shift leads away from.  Edges that cross are no exception, because no point
is far enough from both of them.  A shift may lead out of the range of coordinates.  Then there is
no shifted point, and over the integers there is none in the rectangle either, since every integer
between two edges is a coordinate (`Rect.exists_isShift_mem_iff`).

Insets add up (`Rect.withInset_of_withInset`).  Two of them inward move no edge past the place to
which their sum moves it, so they can be computed in a row if their sum can be
(`Rect.withInset_withInset_of_nonneg`).
-/

namespace PointerMotion
namespace Rect

variable {r : Rect}

/-! ## Centers -/

/-- **When a rectangle has a center.** -/
theorem exists_center_eq_ok_iff : (∃ c, r.center = .ok c) ↔
    Coord.InRange (r.left.val + r.right.val) ∧ Coord.InRange (r.top.val + r.bottom.val) := by
  constructor
  · rintro ⟨c, hc⟩
    obtain ⟨hx, hy⟩ := center_eq_ok_iff.1 hc
    exact ⟨(centerX_eq_ok_iff.1 hx).1, (centerY_eq_ok_iff.1 hy).1⟩
  · rintro ⟨hx, hy⟩
    exact ⟨⟨⟨_, hx.half.1, hx.half.2⟩, ⟨_, hy.half.1, hy.half.2⟩⟩,
      center_eq_ok_iff.2 ⟨centerX_eq_ok_iff.2 ⟨hx, rfl⟩, centerY_eq_ok_iff.2 ⟨hy, rfl⟩⟩⟩

variable {c : Point}

/-- Halving cuts off nothing of an even sum of edges, and one of an odd sum. -/
theorem add_sub_two_mul_center (h : r.center = .ok c) :
    (r.right.val + r.left.val - 2 * c.x.val = 0 ∨ r.right.val + r.left.val - 2 * c.x.val = 1) ∧
      (r.bottom.val + r.top.val - 2 * c.y.val = 0 ∨
        r.bottom.val + r.top.val - 2 * c.y.val = 1) := by
  obtain ⟨hx, hy⟩ := center_eq_ok_iff.1 h
  obtain ⟨-, hx⟩ := centerX_eq_ok_iff.1 hx
  obtain ⟨-, hy⟩ := centerY_eq_ok_iff.1 hy
  omega

/-- **A rectangle that is not empty contains its center.** -/
theorem center_mem (h : r.center = .ok c) (hr : ¬ r.IsEmpty) : c ∈ r := by
  have hcut := add_sub_two_mul_center h
  rw [isEmpty_iff] at hr
  rw [mem_iff]
  omega

/-! ## Points of an inset -/

/-- A shifted point is in a rectangle if, over the integers, its coordinates are. -/
theorem exists_isShift_mem_iff {p : Point} {dx dy : Int} : (∃ q ∈ r, p.IsShift dx dy q) ↔
    (r.left.val ≤ p.x.val + dx ∧ p.x.val + dx < r.right.val) ∧
      (r.top.val ≤ p.y.val + dy ∧ p.y.val + dy < r.bottom.val) := by
  constructor
  · rintro ⟨q, hq, hx, hy⟩
    rw [mem_iff, hx, hy] at hq
    exact hq
  · rintro ⟨hx, hy⟩
    have hxrange := r.left.inRange_val.between r.right.inRange_val hx.1 hx.2.le
    have hyrange := r.top.inRange_val.between r.bottom.inRange_val hy.1 hy.2.le
    exact ⟨⟨⟨_, hxrange.1, hxrange.2⟩, ⟨_, hyrange.1, hyrange.2⟩⟩, mem_iff.2 ⟨hx, hy⟩, rfl, rfl⟩

variable {dx dy : Coord} {inset : Rect}

/-- **A point is in an inset if both its shifts are in the rectangle.** -/
theorem mem_withInset_iff (hdx : 0 ≤ dx.val) (hdy : 0 ≤ dy.val)
    (h : r.withInset dx dy = .ok inset) (p : Point) : p ∈ inset ↔
      (∃ q ∈ r, p.IsShift (-dx.val) (-dy.val) q) ∧ ∃ q ∈ r, p.IsShift dx.val dy.val q := by
  obtain ⟨hleft, htop, hright, hbottom⟩ := withInset_eq_ok_iff.1 h
  rw [mem_iff, exists_isShift_mem_iff, exists_isShift_mem_iff]
  omega

/-! ## Insets in a row -/

/-- **When a rectangle has an inset.** -/
theorem exists_withInset_eq_ok_iff : (∃ inset, r.withInset dx dy = .ok inset) ↔
    (Coord.InRange (r.left.val + dx.val) ∧ Coord.InRange (r.top.val + dy.val)) ∧
      Coord.InRange (r.right.val - dx.val) ∧ Coord.InRange (r.bottom.val - dy.val) := by
  simp only [withInset_eq_ok_iff]
  constructor
  · rintro ⟨inset, hleft, htop, hright, hbottom⟩
    exact ⟨⟨hleft ▸ inset.left.inRange_val, htop ▸ inset.top.inRange_val⟩,
      hright ▸ inset.right.inRange_val, hbottom ▸ inset.bottom.inRange_val⟩
  · rintro ⟨⟨hleft, htop⟩, hright, hbottom⟩
    exact ⟨⟨⟨_, hleft.1, hleft.2⟩, ⟨_, htop.1, htop.2⟩, ⟨_, hright.1, hright.2⟩,
      ⟨_, hbottom.1, hbottom.2⟩⟩, rfl, rfl, rfl, rfl⟩

variable {a b c d : Coord}

/-- **Insets add up** where they can be computed, inward or outward. -/
theorem withInset_of_withInset (hdx : a.add c = .ok dx) (hdy : b.add d = .ok dy)
    (h : (do (← r.withInset a b).withInset c d) = .ok inset) : r.withInset dx dy = .ok inset := by
  rw [Coord.add, Coord.checked_eq_ok_iff] at hdx hdy
  obtain ⟨inner, hinner, hinset⟩ := Overflow.bind_eq_ok_iff.1 h
  rw [withInset_eq_ok_iff] at hinner hinset ⊢
  omega

/-- **An inset inward can be computed in two parts.** -/
theorem withInset_withInset_of_nonneg (hdx : a.add c = .ok dx) (hdy : b.add d = .ok dy)
    (ha : 0 ≤ a.val) (hb : 0 ≤ b.val) (hc : 0 ≤ c.val) (hd : 0 ≤ d.val)
    (h : r.withInset dx dy = .ok inset) :
    (do (← r.withInset a b).withInset c d) = .ok inset := by
  rw [Coord.add, Coord.checked_eq_ok_iff] at hdx hdy
  obtain ⟨hleft, htop, hright, hbottom⟩ := withInset_eq_ok_iff.1 h
  -- the first part moves each edge to between where it was and where it is in the end
  have hl : Coord.InRange (r.left.val + a.val) :=
    r.left.inRange_val.between inset.left.inRange_val (by omega) (by omega)
  have ht : Coord.InRange (r.top.val + b.val) :=
    r.top.inRange_val.between inset.top.inRange_val (by omega) (by omega)
  have hr : Coord.InRange (r.right.val - a.val) :=
    inset.right.inRange_val.between r.right.inRange_val (by omega) (by omega)
  have hb : Coord.InRange (r.bottom.val - b.val) :=
    inset.bottom.inRange_val.between r.bottom.inRange_val (by omega) (by omega)
  obtain ⟨inner, hinner⟩ := exists_withInset_eq_ok_iff.2 ⟨⟨hl, ht⟩, hr, hb⟩
  refine Overflow.bind_eq_ok_iff.2 ⟨inner, hinner, withInset_eq_ok_iff.2 ?_⟩
  rw [withInset_eq_ok_iff] at hinner
  omega

/-! ## How they fit together -/

/-- **Center, inset and containment fit together**, for edges in any order.

* If the sums of opposite edges are coordinates, the rectangle has a center.  Unless the rectangle
  is empty, the center is in it; and on each axis, the sum of the edges is twice the center, or one
  more.
* A point is in an inset inward, also where the edges of the inset meet or cross, exactly if the
  rectangle contains the point after the shift by the inset and after the opposite shift.
* Two insets in a row are the inset by the sums, if they can be computed; and if they are inward,
  they can be computed if the inset by the sums can be. -/
theorem center_mem_and_mem_withInset_iff (r : Rect) :
    (Coord.InRange (r.left.val + r.right.val) → Coord.InRange (r.top.val + r.bottom.val) →
      ∃ c, r.center = .ok c ∧ (r.centerX = .ok c.x ∧ r.centerY = .ok c.y) ∧
        (¬ r.IsEmpty → c ∈ r) ∧
        (r.right.val + r.left.val - 2 * c.x.val = 0 ∨
          r.right.val + r.left.val - 2 * c.x.val = 1) ∧
        (r.bottom.val + r.top.val - 2 * c.y.val = 0 ∨
          r.bottom.val + r.top.val - 2 * c.y.val = 1)) ∧
    (∀ (dx dy : Coord) (inset : Rect), 0 ≤ dx.val → 0 ≤ dy.val → r.withInset dx dy = .ok inset →
      ∀ p, p ∈ inset ↔
        (∃ q ∈ r, p.IsShift (-dx.val) (-dy.val) q) ∧ ∃ q ∈ r, p.IsShift dx.val dy.val q) ∧
    (∀ a b c d dx dy : Coord, a.add c = .ok dx → b.add d = .ok dy → ∀ inset,
      ((do (← r.withInset a b).withInset c d) = .ok inset → r.withInset dx dy = .ok inset) ∧
      (0 ≤ a.val → 0 ≤ b.val → 0 ≤ c.val → 0 ≤ d.val → r.withInset dx dy = .ok inset →
        (do (← r.withInset a b).withInset c d) = .ok inset)) := by
  refine ⟨fun hx hy => ?_, fun dx dy inset hdx hdy h => mem_withInset_iff hdx hdy h,
    fun a b c d dx dy hdx hdy inset => ⟨withInset_of_withInset hdx hdy,
      withInset_withInset_of_nonneg hdx hdy⟩⟩
  obtain ⟨c, hc⟩ := exists_center_eq_ok_iff.2 ⟨hx, hy⟩
  exact ⟨c, hc, center_eq_ok_iff.1 hc, center_mem hc, add_sub_two_mul_center hc⟩

/-- An inset by two turns a rectangle of three by three inside out: no point has both its shifts in
the rectangle.  Its parts are two insets by one, and after an inset outward by one it is one of
these. -/
theorem center_mem_and_mem_withInset_iff_crossed :
    let r : Rect := ⟨.clamp (-3), .clamp (-3), 0, 0⟩
    let inset : Rect := ⟨.clamp (-1), .clamp (-1), .clamp (-2), .clamp (-2)⟩
    let c : Point := ⟨.clamp (-2), .clamp (-2)⟩
    (r.center = .ok c ∧ c ∈ r) ∧
      r.withInset 2 2 = .ok inset ∧
      (∀ p : Point, ¬ ((∃ q ∈ r, p.IsShift (-2) (-2) q) ∧ ∃ q ∈ r, p.IsShift 2 2 q)) ∧
      (do (← r.withInset 1 1).withInset 1 1) = .ok inset ∧
      r.withInset 1 1 = (do (← r.withInset 2 2).withInset (.clamp (-1)) (.clamp (-1))) := by
  intro r inset c
  obtain ⟨hcenter, hmem, hadd⟩ := center_mem_and_mem_withInset_iff r
  obtain ⟨c', hc, -, hc', -⟩ := hcenter (by decide) (by decide)
  obtain rfl : c' = c := Except.ok.inj (hc.symm.trans (by decide))
  have hinset : r.withInset 2 2 = .ok inset := by decide
  have hback : (do (← r.withInset 2 2).withInset (.clamp (-1)) (.clamp (-1))) =
      .ok ⟨.clamp (-2), .clamp (-2), .clamp (-1), .clamp (-1)⟩ := by decide
  refine ⟨⟨hc, hc' (by decide)⟩, hinset, fun p hp => ?_, ?_, ?_⟩
  · have hp : p ∈ inset := (hmem 2 2 inset (by decide) (by decide) hinset p).2 hp
    exact isEmpty_iff_forall_notMem.1 (by decide) p hp
  · exact (hadd 1 1 1 1 2 2 (by decide) (by decide) inset).2 (by decide) (by decide) (by decide)
      (by decide) hinset
  · exact ((hadd 2 2 _ _ 1 1 (by decide) (by decide) _).1 hback).trans hback.symm

end Rect
end PointerMotion
