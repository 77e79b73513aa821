import Mathlib.Data.Nat.Sqrt
import PointerMotion.Proofs.Floating.Error
import PointerMotion.Proofs.Floating.Root

/-!
# Grids of magnitudes

Rounding is monotone and does not pass magnitudes, so a number is not further from its rounded value
than the next magnitudes are.  Where a statement needs a fixed distance, it is enough to know a grid
of magnitudes that is fine enough: the multiples of `2 ^ -k` that fit in a significand are one
(`Format.spacing_dvd_mul_grain`).  An integer root of a number that was enlarged by `4 ^ k` finds the
place of a root on this grid (`Format.root_mem_grid`).

No grid is fine enough to say that a rounded quotient has the integer part of the exact one, because
the quotient may be as near to an integer as its denominator allows.  Here it is the error that
decides.  The quotient of `a` by `s` is at least one part in `s` below the next integer, and where
`a` has a bit to spare in a significand, the error is smaller than this
(`Format.nearest_mul_unit_div`).
-/

namespace PointerMotion

/-- Integer roots of the same number at two scales. -/
theorem mul_sqrt_lt (a n : Nat) {b : Nat} (hb : 0 < b) :
    a * Nat.sqrt (b * b * n) < b * (Nat.sqrt (a * a * n) + 1) := by
  refine Nat.mul_self_lt_mul_self_iff.1 ?_
  have hle := Nat.sqrt_le (b * b * n)
  have hlt := Nat.sqrt_lt.1 (Nat.lt_succ_self (Nat.sqrt (a * a * n)))
  calc a * Nat.sqrt (b * b * n) * (a * Nat.sqrt (b * b * n))
      = a * a * (Nat.sqrt (b * b * n) * Nat.sqrt (b * b * n)) := by ring
    _ ≤ a * a * (b * b * n) := Nat.mul_le_mul_left _ hle
    _ = b * b * (a * a * n) := by ring
    _ < b * b * ((Nat.sqrt (a * a * n) + 1) * (Nat.sqrt (a * a * n) + 1)) :=
      Nat.mul_lt_mul_of_pos_left hlt (Nat.mul_pos hb hb)
    _ = b * (Nat.sqrt (a * a * n) + 1) * (b * (Nat.sqrt (a * a * n) + 1)) := by ring

namespace Floating.Format

variable {F : Format} {k : Nat}

/-- How many units make `2 ^ -k`. -/
def grain (F : Format) (k : Nat) : Nat := Nat.pow 2 (F.scale - k)

theorem two_pow_mul_grain (hk : k ≤ F.scale) : 2 ^ k * F.grain k = F.unit := by
  rw [grain, unit, Nat.pow_eq, Nat.pow_eq, ← Nat.pow_add, Nat.add_sub_cancel' hk]

/-- The multiples of `2 ^ -k` that fit in a significand are magnitudes. -/
theorem spacing_dvd_mul_grain (k : Nat) {n : Nat} (hn : n ≤ F.full) :
    F.spacing (n * F.grain k) ∣ n * F.grain k :=
  F.spacing_dvd_mul _ hn

/-- **A rounded root on the grid** is where the exact root is. -/
theorem root_mem_grid (hk : k ≤ F.scale) {n : Nat} (hn : Nat.sqrt (2 ^ k * 2 ^ k * n) < F.full) :
    Nat.sqrt (2 ^ k * 2 ^ k * n) * F.grain k ≤ F.root (n * (F.unit * F.unit)) ∧
      F.root (n * (F.unit * F.unit)) ≤ (Nat.sqrt (2 ^ k * 2 ^ k * n) + 1) * F.grain k := by
  have hle := Nat.sqrt_le (2 ^ k * 2 ^ k * n)
  have hlt := Nat.sqrt_lt.1 (Nat.lt_succ_self (Nat.sqrt (2 ^ k * 2 ^ k * n)))
  have hsquare : n * (F.unit * F.unit) = 2 ^ k * 2 ^ k * n * (F.grain k * F.grain k) := by
    rw [← two_pow_mul_grain hk]
    ring
  generalize Nat.sqrt (2 ^ k * 2 ^ k * n) = r at hle hlt hn ⊢
  rw [hsquare]
  constructor
  · refine le_root (spacing_dvd_mul_grain k hn.le) ?_
    rw [Nat.mul_mul_mul_comm]
    exact Nat.mul_le_mul_right _ hle
  · refine root_le (spacing_dvd_mul_grain k hn) ?_
    rw [Nat.mul_mul_mul_comm (r + 1)]
    exact Nat.mul_le_mul_right _ hlt.le

/-- The root of a square number is exact. -/
theorem root_mul_unit {n : Nat} (hn : n ≤ F.full) :
    F.root (n * n * (F.unit * F.unit)) = n * F.unit := by
  rw [Nat.mul_mul_mul_comm]
  exact root_mul_self (spacing_dvd_mul_unit hn)

/-- **A rounded quotient of integers** has the integer part of the exact one. -/
theorem nearest_mul_unit_div {a s : Nat} (ha : 2 * a ≤ F.full) (hs : 0 < s) (hsu : s < F.unit) :
    F.nearest (a * F.unit) s / F.unit = a / s := by
  refine Nat.div_eq_of_lt_le ?_ ?_
  · refine F.le_nearest hs (spacing_dvd_mul_unit ?_) ?_
    · have := Nat.div_le_self a s
      omega
    · rw [Nat.mul_right_comm]
      exact Nat.mul_le_mul_right _ (Nat.div_mul_le_self a s)
  · by_contra hge
    -- rounding would have to bridge one part in `s`
    have herror := F.full_mul_natAbs_nearest_sub_le (a * F.unit) hs
    have hbridge : (a + 1) * F.unit ≤ F.nearest (a * F.unit) s * s :=
      calc (a + 1) * F.unit ≤ (a / s + 1) * s * F.unit :=
            Nat.mul_le_mul_right _ (Nat.lt_div_mul_add hs |>.trans_eq (Nat.succ_mul _ _).symm)
        _ = (a / s + 1) * F.unit * s := Nat.mul_right_comm _ _ _
        _ ≤ F.nearest (a * F.unit) s * s := Nat.mul_le_mul_right s (Nat.le_of_not_lt hge)
    have hone : F.unit ≤ ((F.nearest (a * F.unit) s * s : Int) - (a * F.unit : Nat)).natAbs := by
      rw [Nat.add_mul, Nat.one_mul] at hbridge
      rw [← Int.natCast_mul]
      omega
    have hfull : 0 < F.full := Nat.two_pow_pos _
    have hcontra : 2 * F.full * F.unit < 2 * F.full * F.unit :=
      calc 2 * F.full * F.unit ≤ 2 * (a * F.unit) + F.full * s :=
            (Nat.mul_le_mul_left _ hone).trans herror
        _ = 2 * a * F.unit + F.full * s := by rw [Nat.mul_assoc]
        _ < F.full * F.unit + F.full * F.unit :=
            Nat.add_lt_add_of_le_of_lt (Nat.mul_le_mul_right _ ha)
              (Nat.mul_lt_mul_of_pos_left hsu hfull)
        _ = 2 * F.full * F.unit := by ring
    exact Nat.lt_irrefl _ hcontra

end Floating.Format
end PointerMotion
