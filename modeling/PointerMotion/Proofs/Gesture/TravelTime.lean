import PointerMotion.Gesture.Travel
import PointerMotion.Proofs.Document.Kept
import PointerMotion.Proofs.Floating.Order

/-!
# Travel times and the greatest number of a document

The time of a move is a whole number of milliseconds, so a document keeps it, unless it is the one
number that a document reads as the longest duration.  That number, `2^64 - 1`, is also where the
integer part of a quotient is cut off, and what has to be shown is that it stands for nothing else:
the quotients whose integer part is cut to `2^64 - 1` are those from `2^64` on.  No value of double
precision lies in between, because just below `2^64` the values are `2^11` apart.

A move over no distance, or at speed zero, does not come to the quotient.  The first takes no time,
and the second the longest duration, which a document keeps.
-/

namespace PointerMotion

open Floating

/-! ## The integer part at the greatest number -/

/-- No magnitude lies between the greatest number of a document and the next integer. -/
theorem le_of_greatestWritten_le {u : Nat} (hu : Format.binary64.Holds u)
    (h : Duration.greatestWritten * Format.binary64.unit ≤ u) :
    18446744073709551616 * Format.binary64.unit ≤ u := by
  have hbelow := @add_two_pow_mul_unit_le .binary64 u 11 hu
  rw [show 2 ^ (Format.binary64.precision + 11) = 18446744073709551616 from rfl] at hbelow
  have hunit := @Format.unit_pos .binary64
  unfold Duration.greatestWritten at h
  omega

/-- **The values that are cut to the greatest number** are those above it. -/
theorem truncate_eq_greatestWritten_iff {x : Double} :
    x.truncate 0 Duration.greatestWritten = Duration.greatestWritten ↔
      .ofNat .binary64 18446744073709551616 ≤ x := by
  have hholds : Format.binary64.Holds (18446744073709551616 * Format.binary64.unit) := by
    decide +kernel
  have hposition := position_ofNat hholds
  have hbound := hholds.1
  have hgreatest : (0 : Int) < Duration.greatestWritten := by decide
  cases x with
  | nan => simp only [not_le_nan, truncate, Int.ne_of_lt hgreatest]
  | infinite negative =>
    rw [le_iff_of_position hposition (position_infinite negative), truncate]
    cases negative with
    | true =>
      rw [if_pos rfl, signed_true]
      omega
    | false =>
      rw [if_neg Bool.false_ne_true, signed_false]
      omega
  | finite t u hu =>
    rw [le_iff_of_position hposition (position_finite t u hu), truncate]
    have hdiv : Duration.greatestWritten ≤ u / Format.binary64.unit ↔
        18446744073709551616 * Format.binary64.unit ≤ u := by
      rw [Nat.le_div_iff_mul_le Format.unit_pos]
      exact ⟨le_of_greatestWritten_le hu, Nat.le_trans (Nat.mul_le_mul_right _ (by decide))⟩
    have hunit := @Format.unit_pos .binary64
    generalize u / Format.binary64.unit = q at hdiv
    cases t with
    | true =>
      rw [signed_true, signed_true]
      omega
    | false =>
      rw [signed_false, signed_false, Int.ofNat_le, ← hdiv]
      omega

/-! ## Which travel times a document keeps -/

/-- The quotient of distance and speed is beyond the greatest number of milliseconds. -/
def OverlongTravel (distance : Double) (speed : UInt32) : Prop :=
  speed ≠ 0 ∧ .ofNat .binary64 18446744073709551616 ≤ travelMillis distance speed

instance (distance : Double) (speed : UInt32) : Decidable (OverlongTravel distance speed) :=
  inferInstanceAs (Decidable (_ ∧ _))

/-- The quotient for no distance is zero. -/
theorem isZero_travelMillis {distance : Double} {speed : UInt32} (h : distance.IsZero)
    (hspeed : speed ≠ 0) : (travelMillis distance speed).IsZero := by
  obtain ⟨h₁, hthousand⟩ := exists_ofNat_eq_finite (F := .binary64) (n := 1000) (by decide)
    (by decide)
  obtain ⟨h₂, hspeed'⟩ := exists_ofNat_eq_finite (F := .binary64) (n := speed.toNat)
    (Nat.le_trans (Nat.le_of_lt speed.toNat_lt) (by decide)) (by decide)
  have hne : speed.toNat * Format.binary64.unit ≠ 0 :=
    Nat.mul_ne_zero (fun h0 => hspeed (UInt32.toNat_inj.1 h0)) (Nat.ne_of_gt Format.unit_pos)
  rw [travelMillis, hthousand, hspeed']
  exact (h.mul_left h₁).div hne

theorem not_overlongTravel_of_isZero {distance : Double} (h : distance.IsZero) (speed : UInt32) :
    ¬ OverlongTravel distance speed := by
  rintro ⟨hspeed, hle⟩
  rw [le_iff_of_position (position_ofNat (by decide +kernel)) (isZero_travelMillis h hspeed)] at hle
  exact absurd hle (by decide +kernel)

namespace Duration

/-- The time of an overlong move is that of the greatest number. -/
theorem travelTime_of_overlongTravel {distance : Double} {speed : UInt32}
    (h : OverlongTravel distance speed) :
    (travelTime distance speed).value = .ofMillis greatestWritten := by
  have hzero : ¬ distance.IsZero := fun hzero => not_overlongTravel_of_isZero hzero speed h
  rw [travelTime_of_ne hzero h.1, Logged.value_pure, truncate_eq_greatestWritten_iff.2 h.2,
    Int.toNat_natCast]

/-- Any other time of a move is kept by a document. -/
theorem isWhole_travelTime {distance : Double} {speed : UInt32}
    (h : ¬ OverlongTravel distance speed) : (travelTime distance speed).value.IsWhole := by
  by_cases hzero : distance.IsZero
  · rw [travelTime_of_isZero hzero]
    exact .inr ⟨0, by decide, rfl⟩
  · by_cases hspeed : speed = 0
    · rw [hspeed, travelTime_speed_zero hzero]
      exact .inl rfl
    · rw [travelTime_of_ne hzero hspeed]
      obtain ⟨hlower, hupper⟩ := (travelMillis distance speed).truncate_mem
        (Int.le_refl 0) (Int.natCast_nonneg greatestWritten)
      have hne := mt truncate_eq_greatestWritten_iff.1 fun hle => h ⟨hspeed, hle⟩
      exact .inr ⟨_, by omega, rfl⟩

/-- The greatest number is read as the longest duration. -/
theorem kept_ofMillis_greatestWritten : (ofMillis greatestWritten).kept = longest := by
  decide

theorem written_ofMillis_greatestWritten :
    (ofMillis greatestWritten).written = greatestWritten := by
  decide

theorem ofMillis_greatestWritten_ne_longest : ofMillis greatestWritten ≠ longest := by
  decide

end Duration
end PointerMotion
