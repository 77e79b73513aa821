import PointerMotion.Proofs.Factory.Scaling
import PointerMotion.Proofs.Factory.SwipeEnds
import PointerMotion.Proofs.Floating.Products
import PointerMotion.Proofs.Gesture.Building

/-!
# A greater percentage does not swipe less far

The way of a swipe is a percentage of an extent, and every step of its computation is monotone in
the percentage: the product with a floating-point extent, the integer part, and bringing it into
range.  A percentage may be negative, greater than one or infinite for this.  An extent is a whole
number of pixels, so as a value of single precision it is one or more, unless it is zero: then there
is no way to go for any percentage, and an infinite one, whose product with zero is not a number, is
no exception.

The sense of the direction does not matter.  The way is turned around on the screen where the
direction goes toward smaller coordinates, and how far the pointer gets *in the direction* is the
way itself (`Rect.IsSwipe.displacement`).
-/

namespace PointerMotion

open Floating (Format)

namespace Coord

/-- A positive coordinate as a floating-point number is one or more. -/
theorem exists_toFloating_eq_finite_of_pos {F : Format} (hF : 63 < F.range) {c : Coord}
    (hc : 0 < c.val) : ∃ u hu, c.toFloating F = .finite false u hu ∧ F.unit ≤ u := by
  have hrange : c.val.natAbs ≤ 2 ^ 63 := c.natAbs_val_le
  have hsign : decide (c.val < 0) = false := decide_eq_false (by omega)
  have hvalue : c.toFloating F = .ofUnits F false (c.val.natAbs * F.unit) 1 := by
    rw [toFloating, Floating.ofInt, hsign]
  refine ⟨_, _, hvalue.trans (Floating.ofUnits_of_lt (Format.nearest_mul_unit_lt_bound hrange hF)),
    F.le_nearest Nat.one_pos F.holds_unit.2 ?_⟩
  rw [Nat.mul_one]
  exact Nat.le_mul_of_pos_left _ (by omega)

/-- Every percentage of no extent is none. -/
theorem val_scaled_zero (percent : Single) : ((0 : Coord).scaled percent).val = 0 := by
  have hzero : (0 : Coord).toSingle = .finite false 0 Format.binary32.holds_zero :=
    Floating.ofUnits_of_holds false Format.binary32.holds_zero
  rw [scaled, val_ofFloating, hzero]
  exact Floating.truncate_zero_mul (by decide) (by decide)

/-- **A percentage of an extent is monotone** in the percentage. -/
theorem scaled_mono {extent : Coord} (hextent : 0 ≤ extent.val) {percent₁ percent₂ : Single}
    (h : percent₁ ≤ percent₂) :
    (extent.scaled percent₁).val ≤ (extent.scaled percent₂).val := by
  rcases Int.lt_or_eq_of_le hextent with hpos | hzero
  · obtain ⟨u, hu, hsingle, hone⟩ :=
      exists_toFloating_eq_finite_of_pos (show 63 < Format.binary32.range by decide) hpos
    rw [scaled, scaled, val_ofFloating, val_ofFloating, toSingle, hsingle]
    exact Floating.truncate_mono (by decide) (by decide) (Floating.mul_le_mul_left hu hone h)
  · obtain rfl : extent = 0 := Coord.ext hzero.symm
    rw [val_scaled_zero, val_scaled_zero]

end Coord

namespace Rect

variable {area : Rect} {d : Direction} {p q p' q' : Point} {way way' : Int}

/-- In its direction, a swipe gets as far as its way is long. -/
theorem IsSwipe.displacement (h : area.IsSwipe d way p q) :
    d.sign * ((q.along d).val - (p.along d).val) = way := by
  have hreaches := h.reaches
  rcases d.sign_eq with hsign | hsign <;> rw [hsign] at hreaches ⊢ <;> omega

/-- Where a swipe starts does not depend on its way. -/
theorem IsSwipe.start_eq (h : area.IsSwipe d way p q) (h' : area.IsSwipe d way' p' q') : p = p' :=
  Point.ext_axes d (h.begins.trans h'.begins.symm) (Coord.ext (h.middle.trans h'.middle.symm))

/-- The extents of an area whose edges are in order are not negative. -/
theorem extent_nonneg {extent : Coord} (hx : area.left ≤ area.right) (hy : area.top ≤ area.bottom)
    (hextent : area.extent d = .ok extent) : 0 ≤ extent.val := by
  rw [Coord.le_iff] at hx hy
  rw [extent_eq_ok_iff.1 hextent]
  cases d <;> simp only [Direction.sign, Direction.opposite, edge] <;> omega

end Rect

namespace Factory

open Gesture

variable (f : Factory) {area : Rect} {d : Direction} {percent₁ percent₂ : Single} {speed : UInt32}
  {gestures₁ gestures₂ : List Gesture}

/-- **A greater percentage does not swipe less far.**  The edges of the area are in order, both
percentages are numbers or infinite, and both swipes are answered.  Then both gestures start at the
same point, end beside the point where they start on the axis of the direction, and get in the
direction at most as far for the smaller percentage as for the greater one. -/
theorem swipeOver_mono (hx : area.left ≤ area.right) (hy : area.top ≤ area.bottom)
    (hpercent : percent₁ ≤ percent₂)
    (h₁ : (f.perform (.swipeOver area d percent₁ speed)).outcome = .ok gestures₁)
    (h₂ : (f.perform (.swipeOver area d percent₂ speed)).outcome = .ok gestures₂) :
    ∃ g₁ g₂, gestures₁ = [g₁] ∧ gestures₂ = [g₂] ∧ g₁.start = g₂.start ∧
      g₁.finish.across d = g₁.start.across d ∧ g₂.finish.across d = g₂.start.across d ∧
      d.sign * ((g₁.finish.along d).val - (g₁.start.along d).val) ≤
        d.sign * ((g₂.finish.along d).val - (g₂.start.along d).val) := by
  obtain ⟨p₁, q₁, hends₁, rfl⟩ := f.perform_swipeOver_eq_ok_iff.1 h₁
  obtain ⟨p₂, q₂, hends₂, rfl⟩ := f.perform_swipeOver_eq_ok_iff.1 h₂
  obtain ⟨-, extent, hextent, -, hswipe₁⟩ := Rect.swipeEnds_eq_ok_iff.1 hends₁
  obtain ⟨-, extent', hextent', -, hswipe₂⟩ := Rect.swipeEnds_eq_ok_iff.1 hends₂
  obtain rfl : extent = extent' := Except.ok.inj (hextent.symm.trans hextent')
  refine ⟨_, _, rfl, rfl, hswipe₁.start_eq hswipe₂, ?_, ?_, ?_⟩
  · rw [finish_swipe]
    exact hswipe₁.straight
  · rw [finish_swipe]
    exact hswipe₂.straight
  · rw [finish_swipe, finish_swipe]
    change d.sign * ((q₁.along d).val - (p₁.along d).val) ≤
      d.sign * ((q₂.along d).val - (p₂.along d).val)
    rw [hswipe₁.displacement, hswipe₂.displacement]
    exact Coord.scaled_mono (Rect.extent_nonneg hx hy hextent) hpercent

/-- The least and the greatest percentage, to the right from the middle column. -/
theorem swipeOver_mono_infinite :
    let area : Rect := ⟨0, .clamp (-3), 7, 4⟩
    let percent₁ : Single := .infinite true
    let percent₂ : Single := .infinite false
    area.left ≤ area.right ∧ area.top ≤ area.bottom ∧ percent₁ ≤ percent₂ ∧ ∃ g₁ g₂,
      (perform {} (.swipeOver area .right percent₁ 0)).outcome = .ok [g₁] ∧
      (perform {} (.swipeOver area .right percent₂ 0)).outcome = .ok [g₂] ∧
      g₁.finish.x.val = -2 ^ 63 ∧ g₂.finish.x.val = 2 ^ 63 - 1 ∧ g₁.start = g₂.start ∧
      g₁.finish.x.val - g₁.start.x.val ≤ g₂.finish.x.val - g₂.start.x.val := by
  intro area percent₁ percent₂
  have hx : area.left ≤ area.right := by decide
  have hy : area.top ≤ area.bottom := by decide
  have hpercent : percent₁ ≤ percent₂ := by decide +kernel
  have hanswer (percent : Single) (q : Point)
      (hends : area.swipeEnds .right percent = .ok (⟨0, 0⟩, q)) :
      (perform {} (.swipeOver area .right percent 0)).outcome =
        .ok [(swipe {} ⟨0, 0⟩ q 0).value] :=
    (perform_swipeOver_eq_ok_iff {}).2 ⟨_, _, hends, rfl⟩
  have h₁ := hanswer percent₁ ⟨.clamp (-2 ^ 63), 0⟩ (by decide +kernel)
  have h₂ := hanswer percent₂ ⟨.clamp (2 ^ 63 - 1), 0⟩ (by decide +kernel)
  obtain ⟨g₁, g₂, hg₁, hg₂, hstart, -, -, hle⟩ := swipeOver_mono {} hx hy hpercent h₁ h₂
  obtain rfl := List.singleton_inj.1 hg₁
  obtain rfl := List.singleton_inj.1 hg₂
  rw [Direction.sign, Int.one_mul, Int.one_mul] at hle
  exact ⟨hx, hy, hpercent, _, _, h₁, h₂, by decide, by decide, hstart, hle⟩

end Factory
end PointerMotion
