import PointerMotion.Proofs.Floating.Multiples

/-!
# Products with a value that is one or more

A product with a finite value of one or more stands at `Format.product`, with the sign of the other
factor.  As in `Multiples`, this is a function of positions alone: it does not see the sign of a
zero, and it gives an infinite factor no case of its own, because a factor of one or more keeps the
end of the range where it is.  So the product is monotone in the other factor, from one infinity to
the other (`mul_le_mul_left`).
-/

namespace PointerMotion.Floating

variable {F : Format} {x y : Floating F} {u : Nat}

/-- The position of the product of what stands at `u` and at `p`. -/
def Format.product (F : Format) (u p : Nat) : Nat := min (F.nearest (u * p) F.unit) F.bound

theorem Format.product_mono {p₁ p₂ : Nat} (h : p₁ ≤ p₂) : F.product u p₁ ≤ F.product u p₂ := by
  have hmono : F.nearest (u * p₁) F.unit ≤ F.nearest (u * p₂) F.unit :=
    nearest_mono F.unit_pos F.unit_pos (Nat.mul_le_mul_right _ (Nat.mul_le_mul_left u h))
  exact min_le_min_right F.bound hmono

/-- A value of one or more takes the end of the range to itself. -/
theorem Format.product_bound (hu : F.unit ≤ u) : F.product u F.bound = F.bound := by
  refine min_eq_right (F.le_nearest F.unit_pos (F.spacing_dvd_two_pow _) ?_)
  rw [Nat.mul_comm]
  exact Nat.mul_le_mul_right _ hu

/-- **Where a product stands**, if one factor is a finite value of one or more. -/
theorem position_mul {j : Int} (hu : F.Holds u) (hone : F.unit ≤ u) (hy : y.position = some j) :
    (.finite false u hu * y : Floating F).position =
      some (signed (decide (j < 0)) (F.product u j.natAbs)) := by
  have hbound : 0 < F.bound := Nat.two_pow_pos _
  have hpos : 0 < u := Nat.lt_of_lt_of_le F.unit_pos hone
  cases y with
  | nan => cases hy
  | infinite t =>
    obtain rfl := Option.some.inj hy
    rw [finite_mul_infinite hu (Nat.ne_of_gt hpos), position_infinite, natAbs_signed,
      Format.product_bound hone, Bool.false_bne]
    cases t with
    | false => rw [signed_false, decide_eq_false (by omega), signed_false]
    | true => rw [signed_true, decide_eq_true (by omega), signed_true]
  | finite t v hv =>
    obtain rfl := Option.some.inj hy
    rw [finite_mul_finite, position_ofUnits, natAbs_signed, Format.product, Bool.false_bne]
    rcases Nat.eq_zero_or_pos v with rfl | hvpos
    · -- a zero keeps no sign
      rw [Nat.mul_zero, F.nearest_zero, Nat.zero_min]
      cases t <;> rfl
    · cases t with
      | false => rw [signed_false v, decide_eq_false (by omega)]
      | true => rw [signed_true v, decide_eq_true (by omega)]

/-- **The product with a value of one or more is monotone.** -/
theorem mul_le_mul_left (hu : F.Holds u) (hone : F.unit ≤ u) (h : x ≤ y) :
    (.finite false u hu * x : Floating F) ≤ .finite false u hu * y := by
  obtain ⟨i, hx, j, hy, hle⟩ := h
  rw [le_iff_of_position (position_mul hu hone hx) (position_mul hu hone hy)]
  exact signed_natAbs_mono (f := F.product u) Format.product_mono hle

/-- A zero times anything has no integer part. -/
theorem truncate_zero_mul {t : Bool} {lo hi : Int} (hlo : lo ≤ 0) (hhi : 0 ≤ hi) :
    (.finite t 0 F.holds_zero * y : Floating F).truncate lo hi = 0 := by
  cases y with
  | nan => rfl
  | infinite s => rfl
  | finite s v hv =>
    have hlt : F.nearest (0 * v) F.unit < F.bound := by
      rw [Nat.zero_mul, F.nearest_zero]
      exact Nat.two_pow_pos _
    rw [finite_mul_finite, ofUnits_of_lt hlt]
    simp only [truncate, Nat.zero_mul, F.nearest_zero, Nat.zero_div]
    cases t != s <;> simp only [signed_false, signed_true] <;> omega

end PointerMotion.Floating
