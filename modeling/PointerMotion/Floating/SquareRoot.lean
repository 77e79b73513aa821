/-!
# The integer square root

`squareRoot n` is the greatest number whose square is at most `n`.  It is found one binary digit
at a time: the root of `n` is twice the root of `n / 4`, or one more.  The recursion is on the
number of digits, so the root can be computed by reduction alone.
-/

namespace PointerMotion

/-- The square root of a number of at most `k` base-four digits, rounded down. -/
def rootDigits : Nat → Nat → Nat
  | 0, _ => 0
  | k + 1, n =>
    let r := 2 * rootDigits k (n / 4)
    if (r + 1) * (r + 1) ≤ n then r + 1 else r

/-- The square root, rounded down. -/
def squareRoot (n : Nat) : Nat := rootDigits (n.log2 / 2 + 1) n

theorem rootDigits_bounds {k n : Nat} (h : n < Nat.pow 4 k) :
    rootDigits k n * rootDigits k n ≤ n ∧ n < (rootDigits k n + 1) * (rootDigits k n + 1) := by
  induction k generalizing n with
  | zero =>
    have : n = 0 := Nat.lt_one_iff.1 h
    simp [rootDigits, this]
  | succ k ih =>
    rw [Nat.pow_eq, Nat.pow_succ] at h
    obtain ⟨hle, hlt⟩ := ih (n := n / 4) (by rw [Nat.pow_eq]; omega)
    rw [rootDigits]
    generalize rootDigits k (n / 4) = r at hle hlt
    have h₁ : 2 * r * (2 * r) = 4 * (r * r) := by
      rw [Nat.mul_mul_mul_comm]
    have h₂ : (2 * r + 2) * (2 * r + 2) = 4 * ((r + 1) * (r + 1)) := by
      rw [show 2 * r + 2 = 2 * (r + 1) from rfl, Nat.mul_mul_mul_comm]
    split
    · rename_i hr
      exact ⟨hr, by rw [h₂]; omega⟩
    · rename_i hr
      exact ⟨by rw [h₁]; omega, by omega⟩

theorem lt_four_pow_digits (n : Nat) : n < Nat.pow 4 (n.log2 / 2 + 1) := by
  refine Nat.lt_of_lt_of_le Nat.lt_log2_self ?_
  rw [show (4 : Nat) = Nat.pow 2 2 from rfl, Nat.pow_eq, Nat.pow_eq, ← Nat.pow_mul]
  exact Nat.pow_le_pow_right (by decide) (by omega)

theorem squareRoot_mul_self_le (n : Nat) : squareRoot n * squareRoot n ≤ n :=
  (rootDigits_bounds (lt_four_pow_digits n)).1

theorem lt_succ_squareRoot_mul_self (n : Nat) : n < (squareRoot n + 1) * (squareRoot n + 1) :=
  (rootDigits_bounds (lt_four_pow_digits n)).2

/-- The two bounds determine the root. -/
theorem squareRoot_eq {r n : Nat} (hle : r * r ≤ n) (hlt : n < (r + 1) * (r + 1)) :
    squareRoot n = r := by
  have h₁ := squareRoot_mul_self_le n
  have h₂ := lt_succ_squareRoot_mul_self n
  rcases Nat.lt_trichotomy (squareRoot n) r with h | h | h
  · exact absurd (Nat.mul_le_mul h h) (by simp only [Nat.succ_eq_add_one]; omega)
  · exact h
  · exact absurd (Nat.mul_le_mul h h) (by simp only [Nat.succ_eq_add_one]; omega)

@[simp] theorem squareRoot_mul_self (r : Nat) : squareRoot (r * r) = r :=
  squareRoot_eq (Nat.le_refl _) (Nat.mul_self_lt_mul_self (Nat.lt_succ_self r))

end PointerMotion
