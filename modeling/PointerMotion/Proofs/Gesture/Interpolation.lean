import PointerMotion.Proofs.Geometry.Axis
import PointerMotion.Proofs.Geometry.Distance
import PointerMotion.Proofs.Gesture.Timeline

/-!
# The pointer between the ends of an action

A coordinate in the course of an action is the integer part of a sum of floating-point numbers: the
first coordinate, and a fraction of the way to the second.  The difference of the coordinates is an
exact integer, and where it is a number of double precision as well, the whole computation is one
on integers, namely on positions.  `Coord.interpolated` is this computation.  Only the product and
the sum are rounded in it, and `Coord.exists_between_eq_ok` says that it is what `Coord.between`
computes.

The fraction itself is the quotient of two numbers of nanoseconds, which were rounded before.  It
can be one before the action is over.  It is never more than one, though, and this is all that is
needed for the pointer to stay between the ends (`Coord.interpolated_mem`): the product lies between
zero and the way, the sum between the two coordinates, and all of these are numbers of double
precision, which rounding does not pass.
-/

namespace PointerMotion

open Floating (Format)

/-! ## A coordinate between two others -/

namespace Coord

variable {a b : Coord} {f : Nat}

/-- The integer part of the coordinate at a fraction of the way from `a` to `b`, for a fraction
that stands at `f`. -/
def interpolated (a b : Coord) (f : Nat) : Int :=
  (Format.binary64.round (Format.binary64.nearestInt a.val +
    Format.binary64.round ((b.val - a.val) * f))).tdiv Format.binary64.unit

/-- A fraction of a way lies between no way and all of it. -/
theorem mul_fraction_mem (n : Int) (hf : f ≤ Format.binary64.unit) :
    min 0 n * Format.binary64.unit ≤ n * f ∧ n * f ≤ max 0 n * Format.binary64.unit := by
  have hone : (f : Int) ≤ Format.binary64.unit := Int.ofNat_le.2 hf
  have hzero : (0 : Int) ≤ f := Int.natCast_nonneg f
  rcases Int.le_total 0 n with hn | hn
  · rw [min_eq_left hn, max_eq_right hn, Int.zero_mul]
    exact ⟨Int.mul_nonneg hn hzero, Int.mul_le_mul_of_nonneg_left hone hn⟩
  · rw [min_eq_right hn, max_eq_left hn, Int.zero_mul]
    exact ⟨Int.mul_le_mul_of_nonpos_left hn hone, Int.mul_nonpos_of_nonpos_of_nonneg hn hzero⟩

/-- **A coordinate between two others**, where their difference is a number of double precision. -/
theorem exists_between_eq_ok {fraction : Double} (hway : (b.val - a.val).natAbs ≤ 2 ^ 53)
    (hfraction : fraction.StandsAt f) (hf : f ≤ Format.binary64.unit) :
    ∃ c, a.between b fraction = .ok c ∧
      c.val = max (-9223372036854775808) (min 9223372036854775807 (a.interpolated b f)) := by
  obtain ⟨way, hsub, hval⟩ := exists_checked_eq_ok .subtraction
    (show InRange (b.val - a.val) by constructor <;> omega)
  have hexact := way.standsAt_toDouble
  rw [hval, Format.nearestInt_of_natAbs_le hway] at hexact
  have hpart : ((b.val - a.val) * f).natAbs ≤ 2 ^ 53 * Format.binary64.unit := by
    rw [Int.natAbs_mul, Int.natAbs_natCast]
    exact Nat.mul_le_mul hway hf
  have hproduct := hexact.mul hfraction (Format.natAbs_round_lt_bound hpart (by decide))
  have hstart : (Format.binary64.nearestInt a.val).natAbs ≤ 2 ^ 63 * Format.binary64.unit := by
    rw [Format.nearestInt_eq_round]
    refine Format.natAbs_round_le ?_
    rw [Int.natAbs_mul, Int.natAbs_natCast]
    exact Nat.mul_le_mul_right _ a.natAbs_val_le
  have hend : (Format.binary64.nearestInt a.val +
      Format.binary64.round ((b.val - a.val) * f)).natAbs ≤ 2 ^ 64 * Format.binary64.unit := by
    have := Format.natAbs_round_le hpart
    omega
  have hsum := a.standsAt_toDouble.add hproduct (Format.natAbs_round_lt_bound hend (by decide))
  refine ⟨.ofFloating (a.toDouble + way.toDouble * fraction), ?_, ?_⟩
  · exact Overflow.bind_eq_ok_iff.2 ⟨way, hsub, rfl⟩
  · rw [val_ofFloating, hsum.truncate_eq]
    rfl

/-- **Between two coordinates within `2 ^ 52`**, the coordinate is between them. -/
theorem interpolated_mem (ha : a.val.natAbs ≤ 2 ^ 52) (hb : b.val.natAbs ≤ 2 ^ 52)
    (hf : f ≤ Format.binary64.unit) :
    min a.val b.val ≤ a.interpolated b f ∧ a.interpolated b f ≤ max a.val b.val := by
  have hfull : Format.binary64.full = 2 ^ 53 := rfl
  have hpart := Format.round_mem (F := .binary64) (by omega) (by omega)
    (mul_fraction_mem (b.val - a.val) hf)
  have hends : min a.val b.val * Format.binary64.unit ≤
      a.val * Format.binary64.unit + Format.binary64.round ((b.val - a.val) * f) ∧
      a.val * Format.binary64.unit + Format.binary64.round ((b.val - a.val) * f) ≤
        max a.val b.val * Format.binary64.unit := by
    rw [show min a.val b.val = a.val + min 0 (b.val - a.val) by omega,
      show max a.val b.val = a.val + max 0 (b.val - a.val) by omega, Int.add_mul, Int.add_mul]
    exact ⟨Int.add_le_add_left hpart.1 _, Int.add_le_add_left hpart.2 _⟩
  have hsum := Format.round_mem (F := .binary64) (by omega) (by omega) hends
  have hunit : (0 : Int) < Format.binary64.unit := Int.natCast_pos.2 Format.unit_pos
  rw [interpolated, Format.nearestInt_of_natAbs_le (by omega)]
  rw [← Int.mul_tdiv_cancel (min a.val b.val) (Int.ne_of_gt hunit),
    ← Int.mul_tdiv_cancel (max a.val b.val) (Int.ne_of_gt hunit)]
  exact ⟨Int.tdiv_le_tdiv hunit hsum.1, Int.tdiv_le_tdiv hunit hsum.2⟩

/-- At the beginning of the way, the coordinate is the first one. -/
theorem interpolated_zero (ha : a.val.natAbs ≤ 2 ^ 53) : a.interpolated b 0 = a.val := by
  have hunit : (Format.binary64.unit : Int) ≠ 0 :=
    Int.natCast_ne_zero.2 (Nat.ne_of_gt Format.unit_pos)
  rw [interpolated, Int.natCast_zero, Int.mul_zero, Format.round_zero, Int.add_zero,
    Format.round_nearestInt, Format.nearestInt_of_natAbs_le ha, Int.mul_tdiv_cancel _ hunit]

end Coord

/-! ## A point of an action -/

/-- The fraction of a duration that has passed is a number, and one at most. -/
theorem Duration.standsAt_passed (d : Duration) {e : Nat} (he : e < d.nanos) :
    (Floating.ofNat .binary64 e / .ofNat .binary64 d.nanos).StandsAt
        (Format.binary64.ratio e d.nanos) ∧
      Format.binary64.ratio e d.nanos ≤ Format.binary64.unit := by
  have hpos : 0 < d.nanos := by omega
  have hbounded := d.bounded
  exact ⟨Floating.standsAt_ratio (k := 94) hpos he.le (by omega) (by decide),
    Format.ratio_le_unit hpos he.le⟩

namespace Action

/-- A point of an action is made of the coordinates on both axes. -/
theorem pointAt_eq_ok_iff {a : Action} {fraction : Double} {p : Point} :
    a.pointAt fraction = .ok p ↔
      ∀ d, (a.start.along d).between (a.finish.along d) fraction = .ok (p.along d) := by
  rw [Direction.forall_iff Iff.rfl Iff.rfl]
  simp only [pointAt, Overflow.bind_eq_ok_iff, pure, Except.pure, Except.ok.injEq]
  constructor
  · rintro ⟨x, hx, y, hy, rfl⟩
    exact ⟨hx, hy⟩
  · rintro ⟨hx, hy⟩
    exact ⟨p.x, hx, p.y, hy, rfl⟩

/-- **A point of an action** whose ends are within `2 ^ 52`, after some of its nanoseconds. -/
theorem exists_pointAt_eq_ok {a : Action} (hstart : a.start.IsNear (2 ^ 52))
    (hfinish : a.finish.IsNear (2 ^ 52)) {e : Nat} (he : e < a.duration.nanos) :
    ∃ p, a.pointAt (.ofNat .binary64 e / .ofNat .binary64 a.duration.nanos) = .ok p ∧
      ∀ d, (p.along d).val = (a.start.along d).interpolated (a.finish.along d)
        (Format.binary64.ratio e a.duration.nanos) := by
  obtain ⟨hfraction, hunit⟩ := a.duration.standsAt_passed he
  have hcoord (d : Direction) : ∃ c, (a.start.along d).between (a.finish.along d)
      (.ofNat .binary64 e / .ofNat .binary64 a.duration.nanos) = .ok c ∧
        c.val = (a.start.along d).interpolated (a.finish.along d)
          (Format.binary64.ratio e a.duration.nanos) := by
    have ha := hstart.along d
    have hb := hfinish.along d
    obtain ⟨c, hc, hval⟩ := Coord.exists_between_eq_ok (a := a.start.along d)
      (b := a.finish.along d) (by omega) hfraction hunit
    have hmem := Coord.interpolated_mem ha hb hunit
    exact ⟨c, hc, by omega⟩
  obtain ⟨x, hx, hxval⟩ := hcoord .left
  obtain ⟨y, hy, hyval⟩ := hcoord .up
  refine ⟨⟨x, y⟩, pointAt_eq_ok_iff.2 ?_, ?_⟩
  · exact (Direction.forall_iff Iff.rfl Iff.rfl).2 ⟨hx, hy⟩
  · exact (Direction.forall_iff Iff.rfl Iff.rfl).2 ⟨hxval, hyval⟩

end Action

/-! ## The box of an action -/

namespace Gesture

variable (g : Gesture) (t : Duration) {i : Nat} {a : Action}

theorem exists_pointAt_of_underWay (ha : g.actions[i]? = some a)
    (hbegin : before g.actions i ≤ t.nanos)
    (hend : t.nanos < before g.actions i + a.duration.nanos)
    (hstart : a.start.IsNear (2 ^ 52)) (hfinish : a.finish.IsNear (2 ^ 52)) :
    ∃ p, g.pointAt t = .ok p ∧
      ∀ d, (p.along d).val = (a.start.along d).interpolated (a.finish.along d)
        (Format.binary64.ratio (t.nanos - before g.actions i) a.duration.nanos) := by
  rw [g.pointAt_of_underWay t ha hbegin hend]
  exact Action.exists_pointAt_eq_ok hstart hfinish (by omega)

/-- **The pointer does not leave the box of an action.**  While an action is under way whose ends
are within `2 ^ 52`, the pointer is somewhere, and

* on both axes it is between the start and the end of the action, these included;
* when the action begins, it is at the start;
* where start and end agree on an axis, so does the pointer. -/
theorem pointAt_mem_box (ha : g.actions[i]? = some a) (hbegin : before g.actions i ≤ t.nanos)
    (hend : t.nanos < before g.actions i + a.duration.nanos)
    (hstart : a.start.IsNear (2 ^ 52)) (hfinish : a.finish.IsNear (2 ^ 52)) :
    ∃ p, g.pointAt t = .ok p ∧
      (∀ d, min (a.start.along d).val (a.finish.along d).val ≤ (p.along d).val ∧
        (p.along d).val ≤ max (a.start.along d).val (a.finish.along d).val) ∧
      (t.nanos = before g.actions i → p = a.start) ∧
      (∀ d, a.start.along d = a.finish.along d → p.along d = a.start.along d) := by
  obtain ⟨p, hp, hval⟩ := g.exists_pointAt_of_underWay t ha hbegin hend hstart hfinish
  have hbox (d : Direction) : min (a.start.along d).val (a.finish.along d).val ≤ (p.along d).val ∧
      (p.along d).val ≤ max (a.start.along d).val (a.finish.along d).val := by
    rw [hval d]
    exact Coord.interpolated_mem (hstart.along d) (hfinish.along d)
      (a.duration.standsAt_passed (by omega)).2
  refine ⟨p, hp, hbox, ?_, ?_⟩
  · intro hfirst
    have hcoord (d : Direction) : p.along d = a.start.along d := by
      refine Coord.ext ?_
      rw [hval d, hfirst, Nat.sub_self, Format.ratio_zero]
      exact Coord.interpolated_zero ((hstart.along d).trans (by decide))
    exact Point.ext_axes .right (hcoord .right) (hcoord .down)
  · intro d hagree
    have hmem := hbox d
    rw [← hagree, min_self, max_self] at hmem
    exact Coord.ext (Int.le_antisymm hmem.2 hmem.1)

/-- One nanosecond before the end of the longest duration, the fraction that has passed is one in
double precision, and the pointer is at the end of its way already. -/
theorem pointAt_mem_box_longest :
    let a : Action := .move ⟨.clamp (-4503599627370496), 7⟩ ⟨4503599627370496, 7⟩ .longest
    let g : Gesture := ⟨a.start, .zero, [.pause a.start .zero, a]⟩
    let t : Duration := ⟨18446744073709551615999999998, by decide⟩
    g.actions[1]? = some a ∧ before g.actions 1 ≤ t.nanos ∧
      t.nanos < before g.actions 1 + a.duration.nanos ∧
      a.start.IsNear (2 ^ 52) ∧ a.finish.IsNear (2 ^ 52) ∧ g.pointAt t = .ok a.finish ∧
      ∃ p, g.pointAt t = .ok p ∧ p.along .up = a.start.along .up := by
  intro a g t
  have ha : g.actions[1]? = some a := rfl
  have hbegin : before g.actions 1 ≤ t.nanos := by decide
  have hend : t.nanos < before g.actions 1 + a.duration.nanos := by decide
  have hstart : a.start.IsNear (2 ^ 52) := by decide
  have hfinish : a.finish.IsNear (2 ^ 52) := by decide
  obtain ⟨p, hp, -, -, hagree⟩ := g.pointAt_mem_box t ha hbegin hend hstart hfinish
  exact ⟨ha, hbegin, hend, hstart, hfinish, by decide +kernel, p, hp, hagree .up rfl⟩

end Gesture

end PointerMotion
