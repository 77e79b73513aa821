import PointerMotion.Factory.Extent
import PointerMotion.Proofs.Floating.Order

/-!
# Percentages of extents

A percentage between zero and one is a magnitude that is at most one, or the negative zero.  Its
product with an extent is rounded twice, once when the extent becomes a floating-point number and
once more after the multiplication.  The second rounding cannot pass the floating-point extent,
which is a magnitude itself; the first one can pass the extent, but not the power of two above it.

So a percentage of an extent has the sign of the extent, and is at most twice as far from zero.
Cutting the result and bringing it into range only takes it nearer to zero.

An extent that is a value of single precision is not rounded at all (`Coord.IsExact`), and the whole
of it is the extent.  Extents that fit in a significand are such values.
-/

namespace PointerMotion

open Floating

/-- A percentage between zero and one is a magnitude of one at most, or the negative zero. -/
theorem IsUnit.exists_eq_finite {percent : Single} (h : IsUnit percent) :
    ∃ t v hv, percent = .finite t v hv ∧ v ≤ Format.binary32.unit ∧ (t = true → v = 0) := by
  obtain ⟨hlower, hupper⟩ := h
  have hzero : (ofNat .binary32 0).position = some 0 := congrArg position ofNat_zero
  have hone : (ofNat .binary32 1).position = some (Format.binary32.unit : Int) :=
    congrArg position ofNat_one
  have hbound := @Format.unit_lt_bound .binary32
  obtain ⟨j, hj, hlower, hupper⟩ := exists_position_of_le_of_le hzero hone hlower hupper
  obtain ⟨t, v, hv, rfl, rfl⟩ := exists_eq_finite_of_position hj (by omega)
  refine ⟨t, v, hv, rfl, ?_⟩
  cases t with
  | false =>
    rw [signed_false] at hupper
    exact ⟨Int.ofNat_le.1 hupper, fun h => nomatch h⟩
  | true =>
    rw [signed_true] at hlower
    exact ⟨by omega, fun _ => by omega⟩

namespace Coord

variable {percent : Single}

/-- A coordinate as a floating-point number is at most twice as far from zero. -/
theorem exists_toFloating_eq_finite {F : Format} (hF : 63 < F.range) (c : Coord) :
    ∃ u hu, c.toFloating F = .finite (decide (c.val < 0)) u hu ∧
      u ≤ 2 * c.val.natAbs * F.unit := by
  have hrange : c.val.natAbs ≤ 2 ^ 63 := c.natAbs_val_le
  refine ⟨_, _, ofUnits_of_lt (Format.nearest_mul_unit_lt_bound hrange hF), ?_⟩
  rw [Nat.mul_assoc]
  exact Format.nearest_le_two_mul _

/-- A coordinate within a power of two is within it as a floating-point number. -/
theorem exists_toFloating_eq_finite_of_le {F : Format} {c : Coord} {k : Nat}
    (h : c.val.natAbs ≤ 2 ^ k) (hk : k < F.range) :
    ∃ u hu, c.toFloating F = .finite (decide (c.val < 0)) u hu ∧ u ≤ 2 ^ k * F.unit :=
  ⟨_, _, ofUnits_of_lt (Format.nearest_mul_unit_lt_bound h hk), Format.nearest_mul_unit_le h⟩

/-- A percentage of an extent, before it is brought into range, is no further from zero than the
floating-point extent. -/
theorem exists_val_scaled_eq (extent : Coord) (h : IsUnit percent) :
    ∃ u hu, extent.toSingle = .finite (decide (extent.val < 0)) u hu ∧
      u / Format.binary32.unit ≤ 2 * extent.val.natAbs ∧ ∃ w ≤ u / Format.binary32.unit,
        (extent.scaled percent).val = max (-9223372036854775808)
          (min 9223372036854775807 (signed (decide (extent.val < 0)) w)) := by
  obtain ⟨t, v, hv, rfl, hle, hneg⟩ := h.exists_eq_finite
  obtain ⟨u, hu, hextent, hdouble⟩ :=
    exists_toFloating_eq_finite (show 63 < Format.binary32.range by decide) extent
  obtain ⟨w, hw, hproduct, hzero, hmul⟩ :=
    exists_mul_eq_finite (s := decide (extent.val < 0)) (t := t) hu hv hle
  refine ⟨u, hu, hextent, Nat.div_le_of_le_mul (Nat.mul_comm _ _ ▸ hdouble),
    w / Format.binary32.unit, Nat.div_le_div_right hproduct, ?_⟩
  rw [scaled, val_ofFloating, toSingle, hextent, hmul, truncate]
  cases t with
  | false => rw [Bool.bne_false]
  | true =>
    -- the negative zero changes the sign, but only of a zero
    rw [hzero (hneg rfl), Nat.zero_div]
    cases decide (extent.val < 0) <;> rfl

/-- **A percentage of an extent** lies between zero and twice the extent. -/
theorem scaled_mem_of_nonneg {extent : Coord} (h : IsUnit percent) (hextent : 0 ≤ extent.val) :
    0 ≤ (extent.scaled percent).val ∧ (extent.scaled percent).val ≤ 2 * extent.val := by
  obtain ⟨u, hu, -, hdouble, w, hw, hval⟩ := extent.exists_val_scaled_eq h
  rw [hval, decide_eq_false (by omega), signed_false]
  omega

/-- A percentage of an extent is at most what the extent is after it was a floating-point
number. -/
theorem scaled_le_ofFloating {extent : Coord} (h : IsUnit percent) (hextent : 0 ≤ extent.val) :
    (extent.scaled percent).val ≤ (ofFloating extent.toSingle).val := by
  obtain ⟨u, hu, hsingle, -, w, hw, hval⟩ := extent.exists_val_scaled_eq h
  rw [hval, val_ofFloating, hsingle, truncate, decide_eq_false (by omega), signed_false,
    signed_false]
  omega

theorem scaled_mem_of_nonpos {extent : Coord} (h : IsUnit percent) (hextent : extent.val ≤ 0) :
    2 * extent.val ≤ (extent.scaled percent).val ∧ (extent.scaled percent).val ≤ 0 := by
  obtain ⟨u, hu, -, hdouble, w, hw, hval⟩ := extent.exists_val_scaled_eq h
  rw [hval]
  by_cases hneg : extent.val < 0
  · rw [decide_eq_true hneg, signed_true]
    omega
  · rw [decide_eq_false hneg, signed_false]
    omega

/-! ## Extents that single precision does not change -/

/-- The coordinate is a value of the format. -/
def IsExact (F : Format) (c : Coord) : Prop := F.Holds (c.val.natAbs * F.unit)

instance (F : Format) (c : Coord) : Decidable (c.IsExact F) :=
  inferInstanceAs (Decidable (F.Holds _))

theorem IsExact.ofFloating {F : Format} {c : Coord} (h : c.IsExact F) :
    ofFloating (c.toFloating F) = c := by
  have hupper := c.upper
  exact Coord.ext ((val_ofFloating _).trans (truncate_ofInt h c.lower (by omega)))

/-- A coordinate that fits in a significand is a value of the format. -/
theorem isExact_of_natAbs_le {F : Format} {c : Coord} (h : c.val.natAbs ≤ F.full)
    (hrange : F.precision < F.range) : c.IsExact F :=
  holds_mul_unit h hrange

/-- The whole of an extent that is a value of single precision is the extent. -/
theorem scaled_one {extent : Coord} (h : extent.IsExact .binary32) :
    extent.scaled (.ofNat .binary32 1) = extent := by
  rw [scaled, mul_ofNat_one]
  exact h.ofFloating

end Coord
end PointerMotion
