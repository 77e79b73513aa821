import PointerMotion.Proofs.Floating.Order

/-!
# Square roots between magnitudes

A square root is not a quotient, so it is not rounded itself: what is rounded is a number of quarters
of a unit near it (`rootQuarters`).  Such a number is as good as the root, because on both sides it
compares with the whole units as the root does (`four_mul_le_rootQuarters`, `rootQuarters_le`).  Every
magnitude is a whole number of units, and rounding does not pass magnitudes.  So a magnitude whose
square is not above `n` is not above the rounded root of `n` either (`Format.le_root`), and the same
holds below (`Format.root_le`).

These two bounds are all that other statements need.  The root of a square is exact by both of them
together, and only zero has the root zero.
-/

namespace PointerMotion.Floating

/-- A number of quarters that compares with whole numbers as the root of `n` does: an even number of
quarters that is the root, or an odd one next to it. -/
def rootQuarters (n : Nat) : Nat :=
  if squareRoot (4 * n) * squareRoot (4 * n) = 4 * n then 2 * squareRoot (4 * n)
  else 2 * squareRoot (4 * n) + 1

variable {u n : Nat}

theorem four_mul_le_rootQuarters (h : u * u ≤ n) : 4 * u ≤ rootQuarters n := by
  have hlt := lt_succ_squareRoot_mul_self (4 * n)
  have hdouble : 2 * u * (2 * u) = 4 * (u * u) := by ring
  have hle : 2 * u ≤ squareRoot (4 * n) := by
    by_contra hgt
    have := Nat.mul_self_le_mul_self (Nat.lt_of_not_le hgt)
    rw [Nat.succ_eq_add_one] at this
    omega
  unfold rootQuarters
  split <;> omega

theorem rootQuarters_le (h : n ≤ u * u) : rootQuarters n ≤ 4 * u := by
  have hle := squareRoot_mul_self_le (4 * n)
  have hdouble : 2 * u * (2 * u) = 4 * (u * u) := by ring
  have hbelow : squareRoot (4 * n) ≤ 2 * u := by
    by_contra hgt
    have := Nat.mul_self_lt_mul_self (Nat.lt_of_not_le hgt)
    omega
  unfold rootQuarters
  split
  · omega
  · rename_i hne
    -- the root of a number that is no square lies strictly below `u`
    have hstrict : squareRoot (4 * n) ≠ 2 * u := by
      intro heq
      rw [heq] at hne hle
      omega
    omega

namespace Format

/-- The magnitude nearest to the root of `n` square units, whatever the range. -/
def root (F : Format) (n : Nat) : Nat := F.nearest (rootQuarters n) 4

variable {F : Format}

/-- **A magnitude below a root** is below it after rounding. -/
theorem le_root (hu : F.spacing u ∣ u) (h : u * u ≤ n) : u ≤ F.root n := by
  refine F.le_nearest (by decide) hu ?_
  rw [Nat.mul_comm]
  exact four_mul_le_rootQuarters h

/-- **A magnitude above a root** is above it after rounding. -/
theorem root_le (hu : F.spacing u ∣ u) (h : n ≤ u * u) : F.root n ≤ u := by
  refine F.nearest_le (by decide) hu ?_
  rw [Nat.mul_comm]
  exact rootQuarters_le h

/-- The root of the square of a magnitude is exact. -/
theorem root_mul_self (hu : F.spacing u ∣ u) : F.root (u * u) = u :=
  Nat.le_antisymm (root_le hu (Nat.le_refl _)) (le_root hu (Nat.le_refl _))

theorem root_eq_zero_iff : F.root n = 0 ↔ n = 0 := by
  constructor
  · intro hzero
    by_contra hne
    have hone : 1 ≤ F.root n :=
      le_root (spacing_dvd_two_pow 0) (show 1 * 1 ≤ n by omega)
    omega
  · rintro rfl
    exact Nat.le_zero.1 (root_le (Nat.dvd_zero _) (Nat.zero_le _))

end Format

variable {F : Format}

theorem isZero_ofSquare_iff : (ofSquare F n).IsZero ↔ n = 0 :=
  isZero_ofUnits_iff.trans Format.root_eq_zero_iff

theorem position_ofSquare (h : F.root n < F.bound) :
    (ofSquare F n).position = some ((F.root n : Nat) : Int) :=
  congrArg position (ofUnits_of_lt h)

end PointerMotion.Floating
