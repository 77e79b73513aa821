import PointerMotion.Proofs.Factory.Scaling
import PointerMotion.Proofs.Gesture.Interpolation

/-!
# The pointer during a pause

A pause is a way of no length, and its points are computed as those of any other way.  So its
coordinates become numbers of double precision and are cut to integers again, and nothing is added
to them in between (`Coord.between_self`).  A coordinate that is a number of double precision comes
back from this unchanged.  One that is none becomes a neighbouring number of double precision, which
far from zero is an integer too, and the pointer is seen next to the point where it pauses.  The
single exception is the last coordinate: the number next to it is out of range, and is brought back
to it.
-/

namespace PointerMotion

open Floating (Format)

namespace Coord

/-- No way is a coordinate that was a number of double precision for a while. -/
theorem between_self (c : Coord) {fraction : Double} {f : Nat} (hfraction : fraction.StandsAt f)
    (hf : f ≤ Format.binary64.unit) : c.between c fraction = .ok (.ofFloating c.toDouble) := by
  obtain ⟨c', hc', hval⟩ := exists_between_eq_ok (a := c) (b := c) (by omega) hfraction hf
  have hself : c.interpolated c f =
      (Format.binary64.nearestInt c.val).tdiv Format.binary64.unit := by
    rw [interpolated, Int.sub_self, Int.zero_mul, Format.round_zero, Int.add_zero,
      Format.round_nearestInt]
  have hsame : c' = .ofFloating c.toDouble := by
    refine Coord.ext ?_
    rw [hval, hself, val_ofFloating, c.standsAt_toDouble.truncate_eq]
  rw [hc', hsame]

/-- From the first integer that does not fit in a significand on, numbers of the format are
integers. -/
theorem unit_dvd_nearest {F : Format} {n : Nat} (h : F.full ≤ n) :
    F.unit ∣ F.nearest (n * F.unit) 1 := by
  have hpower : 2 ^ (F.precision + F.scale) ≤ n * F.unit := by
    rw [Nat.pow_add]
    exact Nat.mul_le_mul_right _ h
  have hpos : n * F.unit ≠ 0 := Nat.ne_of_gt (Nat.lt_of_lt_of_le (Nat.two_pow_pos _) hpower)
  have hlog : F.precision + F.scale ≤ (n * F.unit).log2 := (Nat.le_log2 hpos).2 hpower
  have hspacing : F.unit ∣ F.spacing (n * F.unit) := by
    refine Nat.pow_dvd_pow 2 ?_
    unfold Format.step
    omega
  rw [Format.nearest, Nat.div_one, Nat.one_mul]
  exact Nat.dvd_mul_left_of_dvd hspacing _

/-- The coordinates of double precision are those that are not rounded. -/
theorem isExact_iff_nearest {c : Coord} : c.IsExact .binary64 ↔
    Format.binary64.nearest (c.val.natAbs * Format.binary64.unit) 1 =
      c.val.natAbs * Format.binary64.unit := by
  constructor
  · intro hexact
    exact Format.nearest_of_dvd hexact.2
  · intro hnearest
    have hrange : c.val.natAbs ≤ 2 ^ 63 := c.natAbs_val_le
    have hholds : Format.binary64.Holds
        (Format.binary64.nearest (c.val.natAbs * Format.binary64.unit) 1) :=
      ⟨Format.nearest_mul_unit_lt_bound hrange (by decide), Format.spacing_dvd_nearest _ _⟩
    rwa [hnearest] at hholds

/-- A coordinate that is not a number of double precision has another integer in its place. -/
theorem exists_nearest_eq_mul_unit {c : Coord} (h : ¬ c.IsExact .binary64) :
    ∃ k, k ≤ 2 ^ 63 ∧ k ≠ c.val.natAbs ∧
      Format.binary64.nearest (c.val.natAbs * Format.binary64.unit) 1 =
        k * Format.binary64.unit := by
  have hlarge : Format.binary64.full ≤ c.val.natAbs := by
    by_contra hsmall
    exact h (isExact_of_natAbs_le (Nat.le_of_not_le hsmall) (by decide))
  obtain ⟨k, hk⟩ := unit_dvd_nearest hlarge
  replace hk := hk.trans (Nat.mul_comm _ k)
  refine ⟨k, ?_, ?_, hk⟩
  · have hrange : c.val.natAbs ≤ 2 ^ 63 := c.natAbs_val_le
    have hle := Format.nearest_mul_unit_le (F := .binary64) hrange
    rw [hk] at hle
    exact Nat.le_of_mul_le_mul_right hle Format.unit_pos
  · rintro rfl
    exact h (isExact_iff_nearest.2 hk)

/-- **The coordinates that double precision keeps**: those that it has, and the last one. -/
theorem ofFloating_toDouble_eq_iff {c : Coord} :
    ofFloating c.toDouble = c ↔ c.IsExact .binary64 ∨ c.val = 9223372036854775807 := by
  constructor
  · intro hkept
    by_contra hneither
    obtain ⟨hexact, hlast⟩ := not_or.1 hneither
    obtain ⟨k, hbound, hrounded, hk⟩ := exists_nearest_eq_mul_unit hexact
    have hunit : 0 < Format.binary64.unit := Format.unit_pos
    have hval := congrArg Coord.val hkept
    rw [val_ofFloating, c.standsAt_toDouble.truncate_eq, Format.nearestInt, hk,
      ← Floating.signed_tdiv, Nat.mul_div_cancel _ hunit] at hval
    by_cases hneg : c.val < 0
    · rw [decide_eq_true hneg, signed_true] at hval
      omega
    · rw [decide_eq_false hneg, signed_false] at hval
      omega
  · rintro (hexact | hlast)
    · exact hexact.ofFloating
    · obtain rfl : c = ⟨9223372036854775807, by decide, by decide⟩ := Coord.ext hlast
      decide +kernel

end Coord

namespace Gesture

variable (g : Gesture) (t : Duration) {i : Nat} {point : Point} {d : Duration}

/-- **The pointer during a pause.**  It is seen at the point that double precision makes of the
point where it pauses, and so at this point itself exactly if each of its coordinates is a number of
double precision or the last coordinate.  Within `2 ^ 53` all coordinates are. -/
theorem pointAt_pause (ha : g.actions[i]? = some (.pause point d))
    (hbegin : before g.actions i ≤ t.nanos) (hend : t.nanos < before g.actions i + d.nanos) :
    g.pointAt t = .ok ⟨.ofFloating point.x.toDouble, .ofFloating point.y.toDouble⟩ ∧
      (g.pointAt t = .ok point ↔ ∀ axis,
        (point.along axis).IsExact .binary64 ∨ (point.along axis).val = 9223372036854775807) ∧
      (point.IsNear (2 ^ 53) → g.pointAt t = .ok point) := by
  obtain ⟨hfraction, hunit⟩ :=
    d.standsAt_passed (show t.nanos - before g.actions i < d.nanos by omega)
  have hpoint : g.pointAt t =
      .ok ⟨.ofFloating point.x.toDouble, .ofFloating point.y.toDouble⟩ := by
    rw [g.pointAt_of_underWay t ha hbegin hend, Action.pointAt_eq_ok_iff,
      Direction.forall_iff Iff.rfl Iff.rfl]
    exact ⟨Coord.between_self point.x hfraction hunit, Coord.between_self point.y hfraction hunit⟩
  have hkept : g.pointAt t = .ok point ↔ ∀ axis,
      (point.along axis).IsExact .binary64 ∨ (point.along axis).val = 9223372036854775807 := by
    rw [Direction.forall_iff Iff.rfl Iff.rfl, hpoint, Except.ok.injEq, Point.ext_iff]
    exact and_congr Coord.ofFloating_toDouble_eq_iff Coord.ofFloating_toDouble_eq_iff
  refine ⟨hpoint, hkept, fun hnear => hkept.2 fun axis => .inl ?_⟩
  exact Coord.isExact_of_natAbs_le (hnear.along axis) (by decide)

/-- A pause without end in a corner of the range, one coordinate of which double precision has and
the other one not. -/
theorem pointAt_pause_corner :
    let point : Point := ⟨.clamp 9223372036854775807, .clamp (-9223372036854775808)⟩
    let g : Gesture := ((touch ⟨1, 2⟩).moveTo point (.ofMillis 3)).pause .longest
    let t : Duration := .ofMillis 4
    g.actions[1]? = some (.pause point .longest) ∧ before g.actions 1 ≤ t.nanos ∧
      t.nanos < before g.actions 1 + Duration.longest.nanos ∧ g.pointAt t = .ok point := by
  intro point g t
  have ha : g.actions[1]? = some (.pause point .longest) := rfl
  have hbegin : before g.actions 1 ≤ t.nanos := by decide
  have hend : t.nanos < before g.actions 1 + Duration.longest.nanos := by decide
  obtain ⟨-, hkept, -⟩ := g.pointAt_pause t ha hbegin hend
  refine ⟨ha, hbegin, hend, hkept.2 ?_⟩
  rw [Direction.forall_iff Iff.rfl Iff.rfl]
  exact ⟨.inr rfl, .inl (by decide +kernel)⟩

/-- The first coordinate that double precision does not have: a pointer that pauses there is seen
beside it. -/
theorem pointAt_pause_beside :
    let point : Point := ⟨9007199254740993, 0⟩
    let g : Gesture := (touch point).pause (.ofMillis 1)
    g.actions[0]? = some (.pause point (.ofMillis 1)) ∧
      before g.actions 0 ≤ Duration.zero.nanos ∧
      Duration.zero.nanos < before g.actions 0 + (Duration.ofMillis 1).nanos ∧
      g.pointAt .zero = .ok ⟨9007199254740992, 0⟩ ∧ g.pointAt .zero ≠ .ok point := by
  decide +kernel

end Gesture

end PointerMotion
