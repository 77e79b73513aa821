import PointerMotion.Proofs.Floating.Rounding

/-!
# Comparing floating-point values with integers

Values are compared by their positions, which are integers.  An integer that is a value of the
format stands at as many positions as it has units (`position_ofNat`), so a bound by such an
integer is a bound on a position; and a position within the range is that of a finite value
(`exists_eq_finite_of_position`), which is how a statement about the order becomes one about
magnitudes.

An integer that belongs to the format comes back from it when its integer part is taken
(`truncate_ofInt`).  Integers that fit in a significand belong to every format with enough range.
-/

namespace PointerMotion.Floating

variable {F : Format}

/-! ## Positions -/

@[simp] theorem position_nan : (nan : Floating F).position = none := rfl

@[simp] theorem position_infinite (negative : Bool) :
    (infinite negative : Floating F).position = some (signed negative F.bound) := rfl

@[simp] theorem position_finite (negative : Bool) (u : Nat) (h : F.Holds u) :
    (finite negative u h).position = some (signed negative u) := rfl

theorem signed_not (negative : Bool) (u : Nat) : signed (!negative) u = -signed negative u := by
  cases negative <;> simp

theorem position_neg (x : Floating F) : (-x).position = x.position.map (-·) := by
  cases x with
  | nan => rfl
  | infinite negative => exact congrArg some (signed_not negative F.bound)
  | finite negative u h => exact congrArg some (signed_not negative u)

/-- Values compare as their positions do. -/
theorem le_iff_of_position {x y : Floating F} {i j : Int} (hx : x.position = some i)
    (hy : y.position = some j) : x ≤ y ↔ i ≤ j := by
  rw [le_iff, hx, hy]
  simp

theorem not_le_nan (x : Floating F) : ¬ x ≤ nan := by
  rintro ⟨_, _, _, hj, _⟩
  cases hj

/-- What is between two positions has a position itself. -/
theorem exists_position_of_le_of_le {x y z : Floating F} {i k : Int} (hx : x.position = some i)
    (hz : z.position = some k) (hxy : x ≤ y) (hyz : y ≤ z) :
    ∃ j, y.position = some j ∧ i ≤ j ∧ j ≤ k := by
  obtain ⟨_, _, j, hj, _⟩ := id hxy
  exact ⟨j, hj, (le_iff_of_position hx hj).1 hxy, (le_iff_of_position hj hz).1 hyz⟩

/-- **A position within the range is that of a finite value.** -/
theorem exists_eq_finite_of_position {x : Floating F} {j : Int} (hx : x.position = some j)
    (hj : j.natAbs < F.bound) : ∃ t u h, x = .finite t u h ∧ signed t u = j := by
  cases x with
  | nan => cases hx
  | infinite negative =>
    obtain rfl := Option.some.inj hx
    rw [natAbs_signed] at hj
    exact absurd hj (Nat.lt_irrefl _)
  | finite t u h => exact ⟨t, u, h, rfl, Option.some.inj hx⟩

/-! ## Integers of a format -/

theorem position_ofNat {n : Nat} (h : F.Holds (n * F.unit)) :
    (ofNat F n).position = some ((n * F.unit : Nat) : Int) :=
  congrArg position (ofUnits_of_holds false h)

theorem Format.spacing_dvd_mul_unit {n : Nat} (hn : n ≤ F.full) :
    F.spacing (n * F.unit) ∣ n * F.unit :=
  F.spacing_dvd_mul F.scale hn

/-- An integer that fits in a significand belongs to a format with enough range. -/
theorem holds_mul_unit {n : Nat} (hn : n ≤ F.full) (hrange : F.precision < F.range) :
    F.Holds (n * F.unit) := by
  refine ⟨?_, Format.spacing_dvd_mul_unit hn⟩
  calc n * F.unit ≤ F.full * F.unit := Nat.mul_le_mul_right _ hn
    _ = 2 ^ (F.precision + F.scale) := (Nat.pow_add 2 F.precision F.scale).symm
    _ < F.bound := Nat.pow_lt_pow_right (by decide) (by omega)

theorem exists_ofNat_eq_finite {n : Nat} (hn : n ≤ F.full) (hrange : F.precision < F.range) :
    ∃ h, ofNat F n = .finite false (n * F.unit) h :=
  ⟨holds_mul_unit hn hrange, ofUnits_of_holds false _⟩

/-- Below a power of two that has `k` bits more than a significand, there is no magnitude for a
distance of `2 ^ k`. -/
theorem add_two_pow_mul_unit_le {u k : Nat} (hu : F.Holds u)
    (h : u < 2 ^ (F.precision + k) * F.unit) :
    u + 2 ^ k * F.unit ≤ 2 ^ (F.precision + k) * F.unit := by
  have hunit (j : Nat) : 2 ^ j * F.unit = 2 ^ (j + F.scale) := (Nat.pow_add 2 j F.scale).symm
  rw [hunit, Nat.add_assoc] at h
  rw [hunit, hunit, Nat.add_assoc]
  exact Format.add_two_pow_le hu.2 h

/-- An integer that belongs to a format is its own integer part. -/
theorem truncate_ofInt {i lo hi : Int} (h : F.Holds (i.natAbs * F.unit)) (hlo : lo ≤ i)
    (hhi : i ≤ hi) : (ofInt F i).truncate lo hi = i := by
  rw [ofInt, ofUnits_of_holds _ h, truncate, Nat.mul_div_cancel _ F.unit_pos, signed_natAbs]
  omega

/-! ## Products and quotients -/

theorem finite_mul_finite {s t : Bool} {u v : Nat} (hu : F.Holds u) (hv : F.Holds v) :
    (.finite s u hu * .finite t v hv : Floating F) = ofUnits F (s != t) (u * v) F.unit := rfl

/-- **When a product of two natural numbers is infinite**: each of them is rounded, and then their
product. -/
theorem ofNat_mul_ofNat_eq_infinite_iff {m n : Nat}
    (hm : F.nearest (m * F.unit) 1 < F.bound) (hn : F.nearest (n * F.unit) 1 < F.bound) :
    (ofNat F m * ofNat F n : Floating F) = .infinite false ↔
      F.bound ≤ F.nearest (F.nearest (m * F.unit) 1 * F.nearest (n * F.unit) 1) F.unit := by
  have hmul : (ofNat F m * ofNat F n : Floating F) = ofUnits F (false != false)
      (F.nearest (m * F.unit) 1 * F.nearest (n * F.unit) 1) F.unit := by
    rw [ofNat, ofNat, ofRatio, ofRatio, ofUnits_of_lt hm, ofUnits_of_lt hn]
    exact finite_mul_finite _ _
  rw [hmul, ofUnits]
  split
  · rename_i hlt
    exact iff_of_false (by rintro ⟨⟩) (Nat.not_le.2 hlt)
  · rename_i hle
    exact iff_of_true rfl (Nat.not_lt.1 hle)

theorem finite_mul_infinite {s t : Bool} {u : Nat} (hu : F.Holds u) (hne : u ≠ 0) :
    (.finite s u hu * .infinite t : Floating F) = .infinite (s != t) := if_neg hne

theorem mul_nan (x : Floating F) : x * nan = nan := by
  cases x <;> rfl

theorem IsZero.exists_eq_finite {x : Floating F} (h : x.IsZero) :
    ∃ t, x = .finite t 0 F.holds_zero := by
  obtain ⟨t, u, hu, rfl, hzero⟩ := exists_eq_finite_of_position h (Nat.two_pow_pos _)
  obtain rfl : u = 0 := by rw [← natAbs_signed t u, hzero, Int.natAbs_zero]
  exact ⟨t, rfl⟩

theorem IsZero.mul_left {y : Floating F} (h : y.IsZero) {s : Bool} {u : Nat} (hu : F.Holds u) :
    (.finite s u hu * y).IsZero := by
  obtain ⟨t, rfl⟩ := h.exists_eq_finite
  rw [finite_mul_finite, isZero_ofUnits_iff, Nat.mul_zero, Format.nearest_zero]

theorem IsZero.div {x : Floating F} (h : x.IsZero) {t : Bool} {v : Nat} {hv : F.Holds v}
    (hne : v ≠ 0) : (x / .finite t v hv).IsZero := by
  obtain ⟨s, rfl⟩ := h.exists_eq_finite
  change (if v = 0 then _ else ofUnits F (s != t) (0 * F.unit) v).IsZero
  rw [if_neg hne, isZero_ofUnits_iff, Nat.zero_mul, Format.nearest_zero]

/-- Magnitudes stay magnitudes when they are doubled, as long as the range allows it. -/
theorem Format.spacing_dvd_two_pow_mul {v : Nat} (a : Nat) (hv : F.spacing v ∣ v) :
    F.spacing (2 ^ a * v) ∣ 2 ^ a * v := by
  obtain ⟨q, hq⟩ := hv
  have hfull : q ≤ F.full := by
    refine (Nat.lt_of_mul_lt_mul_left (a := F.spacing v) ?_).le
    calc F.spacing v * q = v := hq.symm
      _ < F.full * F.spacing v := F.lt_full_mul_spacing v
      _ = F.spacing v * F.full := Nat.mul_comm _ _
  have hmul : 2 ^ a * v = q * Nat.pow 2 (F.step v + a) :=
    calc 2 ^ a * v = 2 ^ a * (2 ^ F.step v * q) := congrArg (2 ^ a * ·) hq
      _ = q * 2 ^ (F.step v + a) := by rw [Nat.pow_add, Nat.mul_left_comm, Nat.mul_comm]; ring
  rw [hmul]
  exact F.spacing_dvd_mul _ hfull

/-- **A product with a value of `2 ^ a` at most** is at most `2 ^ a` times the other factor. -/
theorem exists_mul_eq_finite_of_le_two_pow {s t : Bool} {u v a : Nat} (hu : F.Holds u)
    (hv : F.Holds v) (hle : u ≤ 2 ^ a * F.unit) (hlt : 2 ^ a * v < F.bound) :
    ∃ w hw, w ≤ 2 ^ a * v ∧
      (.finite s u hu * .finite t v hv : Floating F) = .finite (s != t) w hw := by
  have hnearest : F.nearest (u * v) F.unit ≤ 2 ^ a * v := by
    refine F.nearest_le F.unit_pos (Format.spacing_dvd_two_pow_mul a hv.2) ?_
    calc u * v ≤ 2 ^ a * F.unit * v := Nat.mul_le_mul_right v hle
      _ = 2 ^ a * v * F.unit := Nat.mul_right_comm _ _ _
  exact ⟨_, _, hnearest, ofUnits_of_lt (Nat.lt_of_le_of_lt hnearest hlt)⟩

/-- What is below the least of the integers that are asked for, or out of range on that side, is
brought to it. -/
theorem truncate_ofUnits_of_le {k den num : Nat} {lo hi : Int} (hden : 0 < den)
    (hnum : 2 ^ k * F.unit * den ≤ num) (hlo : -((2 ^ k : Nat) : Int) ≤ lo) :
    (ofUnits F true num den).truncate lo hi = lo := by
  rw [ofUnits]
  split
  · have hle := F.le_nearest hden (Format.spacing_dvd_two_pow_mul_unit k) hnum
    have hquotient := (Nat.le_div_iff_mul_le F.unit_pos).2 hle
    simp only [truncate, signed_true]
    omega
  · rfl

/-- Multiplying by one changes nothing. -/
theorem mul_ofNat_one (x : Floating F) : x * ofNat F 1 = x := by
  rw [ofNat_one]
  cases x with
  | nan => rfl
  | infinite s =>
    change (if F.unit = 0 then nan else infinite (s != false)) = infinite s
    rw [if_neg (Nat.ne_of_gt F.unit_pos), Bool.bne_false]
  | finite s u hu =>
    have hnearest : F.nearest (u * F.unit) F.unit = u :=
      Nat.le_antisymm (F.nearest_le F.unit_pos hu.2 (Nat.le_refl _))
        (F.le_nearest F.unit_pos hu.2 (Nat.le_refl _))
    rw [finite_mul_finite, Bool.bne_false, ofUnits_of_lt (hnearest.symm ▸ hu.1)]
    congr

end PointerMotion.Floating
