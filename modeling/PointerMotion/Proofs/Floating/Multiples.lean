import PointerMotion.Proofs.Floating.Position

/-!
# Multiples and parts of values that are not negative

A value that is not negative stands at a natural number of units, the infinite one at the end of the
range.  Multiplied by a whole number it stands at `Format.multiple`, and divided by one at
`Format.part`.  Both are functions of positions alone, which do not see the sign of a zero, and which
give the infinite value no case of its own in a product: at the end of the range a multiple is cut
off.  A part of the infinite value is infinite, and here it does have a case.

Both functions are monotone, in the position and in the whole number (`Format.multiple_mono`,
`Format.part_mono`), and so is the integer part of a value (`truncate_mono`).
-/

namespace PointerMotion.Floating

variable {F : Format}

/-! ## On positions -/

namespace Format

/-- The position of `n` times what stands at `p`. -/
def multiple (F : Format) (n p : Nat) : Nat := min (F.nearest (n * p) 1) F.bound

/-- The position of one of `n` equal parts of what stands at `p`. -/
def part (F : Format) (p n : Nat) : Nat :=
  if p < F.bound then min (F.nearest p n) F.bound else F.bound

theorem multiple_mono {n p₁ p₂ : Nat} (h : p₁ ≤ p₂) : F.multiple n p₁ ≤ F.multiple n p₂ := by
  have hmono : F.nearest (n * p₁) 1 ≤ F.nearest (n * p₂) 1 :=
    nearest_mono Nat.one_pos Nat.one_pos (Nat.mul_le_mul_right 1 (Nat.mul_le_mul_left n h))
  exact min_le_min_right F.bound hmono

theorem part_le_bound (p n : Nat) : F.part p n ≤ F.bound := by
  unfold part
  split
  · exact min_le_right _ _
  · exact Nat.le_refl _

/-- **A greater value among fewer** gives greater parts. -/
theorem part_mono {p₁ p₂ n₁ n₂ : Nat} (hp : p₁ ≤ p₂) (hpos : 0 < n₂) (hn : n₂ ≤ n₁) :
    F.part p₁ n₁ ≤ F.part p₂ n₂ := by
  by_cases hlt : p₂ < F.bound
  · rw [part, part, if_pos hlt, if_pos (Nat.lt_of_le_of_lt hp hlt)]
    exact min_le_min_right F.bound
      (nearest_mono (Nat.lt_of_lt_of_le hpos hn) hpos (Nat.mul_le_mul hp hn))
  · rw [part, part, if_neg hlt]
    exact part_le_bound p₁ n₁

/-- Within the range, a multiple is not cut off. -/
theorem multiple_eq {n p : Nat} (h : F.nearest (n * p) 1 < F.bound) :
    F.multiple n p = F.nearest (n * p) 1 :=
  min_eq_left h.le

/-- A part of a finite value is not cut off. -/
theorem part_eq {p n : Nat} (hp : F.Holds p) (hn : 0 < n) : F.part p n = F.nearest p n := by
  have hle : F.nearest p n ≤ p := nearest_le hn hp.2 (Nat.le_mul_of_pos_right p hn)
  rw [part, if_pos hp.1, min_eq_left (hle.trans hp.1.le)]

end Format

/-! ## On values -/

variable {x y : Floating F} {n p : Nat}

theorem position_ofUnits (negative : Bool) (num den : Nat) :
    (ofUnits F negative num den).position =
      some (signed negative (min (F.nearest num den) F.bound)) := by
  by_cases h : F.nearest num den < F.bound
  · rw [ofUnits_of_lt h, min_eq_left h.le]
    rfl
  · rw [ofUnits, dif_neg h, position_infinite, min_eq_right (Nat.le_of_not_lt h)]

/-- What is not below a value at a natural number stands at a natural number too. -/
theorem exists_position_of_le (hx : x.position = some (p : Int)) (h : x ≤ y) :
    ∃ q : Nat, y.position = some (q : Int) ∧ p ≤ q := by
  obtain ⟨i, hi, j, hj, hle⟩ := h
  obtain rfl := Option.some.inj (hx.symm.trans hi)
  refine ⟨j.toNat, ?_, by omega⟩
  rw [Int.toNat_of_nonneg (Int.le_trans (Int.natCast_nonneg p) hle)]
  exact hj

/-- The values that stand at a natural number: the sign of a zero is all that it leaves open. -/
theorem cases_of_position (h : x.position = some (p : Int)) :
    (x = .infinite false ∧ p = F.bound) ∨
      ∃ t hp, x = .finite t p hp ∧ (t = true → p = 0) := by
  have hbound : 0 < F.bound := Nat.two_pow_pos _
  cases x with
  | nan => cases h
  | infinite negative =>
    have hsigned := Option.some.inj h
    cases negative with
    | true =>
      rw [signed_true] at hsigned
      omega
    | false => exact .inl ⟨rfl, (Int.ofNat.inj hsigned).symm⟩
  | finite t u hu =>
    have hsigned := Option.some.inj h
    obtain rfl : u = p := by rw [← natAbs_signed t u, hsigned, Int.natAbs_natCast]
    refine .inr ⟨t, hu, rfl, ?_⟩
    rintro rfl
    rw [signed_true] at hsigned
    omega

/-- **A multiple** of a value that is not negative. -/
theorem position_ofNat_mul (hx : x.position = some (p : Int)) (hpos : 0 < n) (hn : n ≤ F.full)
    (hrange : F.precision < F.range) :
    (ofNat F n * x).position = some ((F.multiple n p : Nat) : Int) := by
  obtain ⟨hholds, hvalue⟩ := exists_ofNat_eq_finite hn hrange
  rw [hvalue]
  rcases cases_of_position hx with ⟨rfl, rfl⟩ | ⟨t, hp, rfl, hzero⟩
  · have hne : n * F.unit ≠ 0 := Nat.ne_of_gt (Nat.mul_pos hpos F.unit_pos)
    have hbound : F.bound ≤ F.nearest (n * F.bound) 1 := by
      refine F.le_nearest Nat.one_pos (F.spacing_dvd_two_pow _) ?_
      rw [Nat.mul_one]
      exact Nat.le_mul_of_pos_left _ hpos
    rw [finite_mul_infinite hholds hne, position_infinite, Format.multiple, min_eq_right hbound]
    rfl
  · have hcancel : F.nearest (n * F.unit * p) F.unit = F.nearest (n * p) 1 := by
      have h := F.nearest_mul_right (n * p) Nat.one_pos F.unit_pos
      rwa [Nat.one_mul, Nat.mul_right_comm] at h
    rw [finite_mul_finite, position_ofUnits, hcancel, Format.multiple]
    cases t with
    | false => rfl
    | true =>
      rw [hzero rfl, Nat.mul_zero, F.nearest_zero, Nat.zero_min]
      rfl

/-- **A part** of a value that is not negative. -/
theorem position_div_ofNat (hx : x.position = some (p : Int)) (hpos : 0 < n) (hn : n ≤ F.full)
    (hrange : F.precision < F.range) :
    (x / ofNat F n).position = some ((F.part p n : Nat) : Int) := by
  obtain ⟨hholds, hvalue⟩ := exists_ofNat_eq_finite hn hrange
  rw [hvalue]
  rcases cases_of_position hx with ⟨rfl, rfl⟩ | ⟨t, hp, rfl, hzero⟩
  · rw [Format.part, if_neg (Nat.lt_irrefl _)]
    rfl
  · have hne : n * F.unit ≠ 0 := Nat.ne_of_gt (Nat.mul_pos hpos F.unit_pos)
    have hquotient : (.finite t p hp / .finite false (n * F.unit) hholds : Floating F) =
        ofUnits F (t != false) (p * F.unit) (n * F.unit) := if_neg hne
    rw [hquotient, position_ofUnits, F.nearest_mul_right p hpos F.unit_pos, Format.part,
      if_pos hp.1]
    cases t with
    | false => rfl
    | true =>
      rw [hzero rfl, F.nearest_zero, Nat.zero_min]
      rfl

/-! ## Integer parts -/

/-- Nothing is above the infinite value but itself. -/
theorem eq_infinite_of_le {x : Floating F} (h : .infinite false ≤ x) : x = .infinite false := by
  obtain ⟨i, hi, j, hj, hle⟩ := h
  obtain rfl := Option.some.inj hi
  cases x with
  | nan => cases hj
  | infinite t =>
    obtain rfl := Option.some.inj hj
    have hbound : 0 < F.bound := Nat.two_pow_pos _
    cases t with
    | true =>
      rw [signed_false, signed_true] at hle
      omega
    | false => rfl
  | finite t u hu =>
    obtain rfl := Option.some.inj hj
    have hlt := hu.1
    have hmagnitude := natAbs_signed t u
    rw [signed_false] at hle
    omega

/-- Nothing is below the negative infinite value but itself. -/
theorem eq_infinite_of_ge {x : Floating F} (h : x ≤ .infinite true) : x = .infinite true := by
  obtain ⟨i, hi, j, hj, hle⟩ := h
  obtain rfl := Option.some.inj hj
  have hneg : (-x).position = some (-i) := by
    rw [position_neg, show x.position = some i from hi]
    rfl
  have hopposite : -x = .infinite false := by
    refine eq_infinite_of_le ⟨_, rfl, -i, hneg, ?_⟩
    rw [signed_true] at hle
    rw [signed_false]
    omega
  cases x with
  | nan => cases hi
  | infinite t =>
    cases t with
    | true => rfl
    | false => cases hopposite
  | finite t u hu => cases hopposite

/-- **The integer part is monotone**, also where it is brought into a range. -/
theorem truncate_mono {lo hi : Int} (hlo : lo ≤ 0) (hhi : 0 ≤ hi) (h : x ≤ y) :
    x.truncate lo hi ≤ y.truncate lo hi := by
  cases x with
  | nan => exact absurd h.choose_spec.1 (by rintro ⟨⟩)
  | infinite s =>
    cases s with
    | true => exact (y.truncate_mem hlo hhi).1
    | false => rw [eq_infinite_of_le h]
  | finite s u hu =>
    cases y with
    | nan => exact absurd h (not_le_nan _)
    | infinite t =>
      cases t with
      | true => cases eq_infinite_of_ge h
      | false => exact (truncate_mem hlo hhi (.finite s u hu)).2
    | finite t v hv =>
      have hle := (le_iff_of_position (position_finite s u hu) (position_finite t v hv)).1 h
      have hparts := Int.tdiv_le_tdiv (Int.natCast_pos.2 F.unit_pos) hle
      rw [truncate, truncate, signed_tdiv, signed_tdiv]
      exact max_le_max_left lo (min_le_min_left hi hparts)

end PointerMotion.Floating
