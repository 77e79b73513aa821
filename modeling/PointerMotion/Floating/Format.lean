/-!
# Binary floating-point formats

A format is two numbers: how many bits a significand has, and how many bits an exponent has.
Every finite magnitude of a format is a multiple of its least positive one, so magnitudes are
natural numbers here: `u` stands for `u` times that least one, `2^-scale`.  Nothing is rounded
before the one place where rounding belongs, and comparisons of magnitudes are comparisons of
natural numbers.

## Which natural numbers are magnitudes

Between two powers of two the magnitudes are equally spaced.  At `u` their spacing is
`F.spacing u`: it is one as long as `u` fits in a significand, and doubles with every bit that
does not.  So `u` is a magnitude when it is a multiple of its own spacing, and below the format's
range (`Format.Holds`).

## Rounding

`Format.nearest` takes a quotient of natural numbers to the nearest magnitude, a tie going to
the even multiple of the spacing; it disregards the range.  The main statement,
`Format.spacing_dvd_nearest`, is that the result is a multiple of its own spacing, also where it
is rounded up to the next power of two.

The few powers that a format is made of are written `Nat.pow` and have names, and everything else
is said in these names.
-/

namespace PointerMotion

/-- The integer nearest to `num / den`; a tie goes to the even one. -/
def roundDiv (num den : Nat) : Nat :=
  if 2 * (num % den) < den ∨ 2 * (num % den) = den ∧ num / den % 2 = 0 then
    num / den
  else
    num / den + 1

theorem div_le_roundDiv (num den : Nat) : num / den ≤ roundDiv num den := by
  unfold roundDiv
  split <;> omega

theorem roundDiv_le (num den : Nat) : roundDiv num den ≤ num / den + 1 := by
  unfold roundDiv
  split <;> omega

/-- A quotient without remainder is not changed. -/
theorem roundDiv_mul_right (q : Nat) {den : Nat} (h : 0 < den) : roundDiv (q * den) den = q := by
  simp [roundDiv, Nat.mul_div_cancel q h, h]

namespace Floating

/-- A format has significands of `precision` bits, the leading one included, and exponents of
`exponentWidth` bits. -/
structure Format where
  precision : Nat
  exponentWidth : Nat
  two_le_precision : 2 ≤ precision := by decide
  two_le_exponentWidth : 2 ≤ exponentWidth := by decide

namespace Format

/-- Single precision: 24 bits of significand, 8 of exponent. -/
def binary32 : Format := ⟨24, 8, by decide, by decide⟩

/-- Double precision: 53 bits of significand, 11 of exponent. -/
def binary64 : Format := ⟨53, 11, by decide, by decide⟩

variable (F : Format)

/-- Finite values are below two to this power. -/
def range : Nat := Nat.pow 2 (F.exponentWidth - 1)

/-- The least positive value is `2^-scale`. -/
def scale : Nat := F.range + F.precision - 3

/-- How many units make one. -/
def unit : Nat := Nat.pow 2 F.scale

/-- The first power of two out of range, in units. -/
def bound : Nat := Nat.pow 2 (F.range + F.scale)

/-- The first number that does not fit in a significand. -/
def full : Nat := Nat.pow 2 F.precision

/-- How many bits of `u` do not fit in a significand. -/
def step (u : Nat) : Nat := u.log2 + 1 - F.precision

/-- The distance between neighbouring magnitudes at `u`. -/
def spacing (u : Nat) : Nat := Nat.pow 2 (F.step u)

/-- The magnitudes of a format. -/
def Holds (u : Nat) : Prop := u < F.bound ∧ F.spacing u ∣ u

instance (u : Nat) : Decidable (F.Holds u) := inferInstanceAs (Decidable (_ ∧ _))

theorem holds_zero : F.Holds 0 := ⟨Nat.two_pow_pos _, Nat.dvd_zero _⟩

/-- The magnitude nearest to `num / den`, whatever the range. -/
def nearest (num den : Nat) : Nat :=
  roundDiv num (den * F.spacing (num / den)) * F.spacing (num / den)

variable {F}

theorem precision_pos : 0 < F.precision := by
  have := F.two_le_precision
  omega

theorem unit_pos : 0 < F.unit := Nat.two_pow_pos _

theorem spacing_pos (u : Nat) : 0 < F.spacing u := Nat.two_pow_pos _

theorem lt_full_mul_spacing (u : Nat) : u < F.full * F.spacing u := by
  simp only [full, spacing, Nat.pow_eq, ← Nat.pow_add]
  refine Nat.lt_of_lt_of_le Nat.lt_log2_self (Nat.pow_le_pow_right (by decide) ?_)
  unfold step
  omega

/-- A multiple of a power of two that fits in a significand is a multiple of its own spacing. -/
theorem spacing_dvd_mul {q : Nat} (s : Nat) (hq : q ≤ F.full) :
    F.spacing (q * Nat.pow 2 s) ∣ q * Nat.pow 2 s := by
  simp only [full, spacing, Nat.pow_eq] at hq ⊢
  rcases Nat.eq_zero_or_pos q with rfl | hpos
  · simp
  rcases Nat.lt_or_eq_of_le hq with hlt | rfl
  · refine Nat.dvd_trans (Nat.pow_dvd_pow 2 ?_) (Nat.dvd_mul_left _ q)
    have hne : q * 2 ^ s ≠ 0 := Nat.mul_ne_zero (by omega) (Nat.ne_of_gt (Nat.two_pow_pos s))
    have : (q * 2 ^ s).log2 < F.precision + s := by
      rw [Nat.log2_lt hne, Nat.pow_add]
      exact Nat.mul_lt_mul_of_pos_right hlt (Nat.two_pow_pos s)
    unfold step
    omega
  · rw [← Nat.pow_add]
    refine Nat.pow_dvd_pow 2 ?_
    have := F.precision_pos
    rw [step, Nat.log2_two_pow]
    omega

/-- The rounded quotient by the spacing fits in a significand, or is the next power of two. -/
theorem roundDiv_spacing_le (num den : Nat) :
    roundDiv num (den * F.spacing (num / den)) ≤ F.full := by
  refine Nat.le_trans (roundDiv_le _ _) ?_
  rw [← Nat.div_div_eq_div_mul, Nat.succ_le_iff, Nat.div_lt_iff_lt_mul (spacing_pos _)]
  exact lt_full_mul_spacing _

/-- What rounding gives is a multiple of its own spacing. -/
theorem spacing_dvd_nearest (num den : Nat) : F.spacing (F.nearest num den) ∣ F.nearest num den :=
  spacing_dvd_mul _ (roundDiv_spacing_le num den)

/-- A magnitude is rounded to itself. -/
theorem nearest_of_dvd {u : Nat} (h : F.spacing u ∣ u) : F.nearest u 1 = u := by
  obtain ⟨q, hq⟩ := h
  rw [nearest, Nat.div_one, Nat.one_mul]
  conv => lhs; arg 1; arg 1; rw [hq, Nat.mul_comm]
  rw [roundDiv_mul_right q (spacing_pos _), Nat.mul_comm]
  exact hq.symm

theorem nearest_zero (den : Nat) : F.nearest 0 den = 0 := by
  rcases Nat.eq_zero_or_pos den with rfl | h
  · simp [nearest, roundDiv, spacing, step]
  · simp [nearest, roundDiv, Nat.mul_pos h (spacing_pos _)]

end Format
end Floating
end PointerMotion
