import PointerMotion.Proofs.Floating.Position
import PointerMotion.Proofs.Json.Scalar

/-!
# Integers that are too large to be kept

An integer that does not fit in a word is kept as a decimal: the digits that fit make its
significand, and each digit that does not is a factor of ten.  It is not kept at all if the product
of the significand and the power of ten is infinite in double precision.

Each of the two factors is rounded before they are multiplied, so this is not a question about the
integer alone, and the answer is not that of rounding the integer itself.  But the answer is
monotone in both factors (`isTooLarge_mono`), and the significand takes as many digits as it can.
So there is a least integer that is refused, and all greater ones are refused with it
(`isOversized_iff`).  It has 289 digits behind a significand of twenty.  With one digit less behind
it no significand is too large, with one more every one is, and with as many its own is and the one
below is not: these are the four products that have to be computed.

The greatest finite number of double precision is an integer, and it is greater than that: written
with all its digits, it is refused.
-/

namespace PointerMotion.Json.Reader

open Floating (Format)

variable {m m' k k' : Nat}

/-! ## Significands and powers of ten -/

/-- Where a significand times a power of ten stands on the line of units, if each of the two is
rounded before they are multiplied. -/
def decimalPosition (m k : Nat) : Nat :=
  Format.binary64.nearest (Format.binary64.nearest (m * Format.binary64.unit) 1 *
    Format.binary64.nearest (10 ^ k * Format.binary64.unit) 1) Format.binary64.unit

theorem decimalPosition_mono (hm : m ≤ m') (hk : k ≤ k') :
    decimalPosition m k ≤ decimalPosition m' k' := by
  have hpower : 10 ^ k ≤ 10 ^ k' := pow_le_pow_right₀ (by decide) hk
  exact Format.nearest_mono Format.unit_pos Format.unit_pos (Nat.mul_le_mul_right _
    (Nat.mul_le_mul (Format.nearest_mul_unit_mono hm) (Format.nearest_mul_unit_mono hpower)))

/-- No significand is out of range by itself, and no power of ten up to `10 ^ 308`. -/
theorem nearest_significand_lt_bound (hm : m < wordLimit) :
    Format.binary64.nearest (m * Format.binary64.unit) 1 < Format.binary64.bound :=
  Format.nearest_mul_unit_lt_bound (k := 64) (Nat.le_of_lt hm) (by decide)

theorem nearest_power_lt_bound (hk : k ≤ 308) :
    Format.binary64.nearest (10 ^ k * Format.binary64.unit) 1 < Format.binary64.bound := by
  have hpower : 10 ^ k ≤ 10 ^ 308 := pow_le_pow_right₀ (by decide) hk
  refine Nat.lt_of_le_of_lt (Format.nearest_mul_unit_mono hpower) ?_
  decide +kernel

theorem isTooLarge_iff (hm : m < wordLimit) : isTooLarge m k = true ↔
    0 < m ∧ (308 < k ∨ Format.binary64.bound ≤ decimalPosition m k) := by
  unfold isTooLarge
  split
  · rename_i hzero
    exact iff_of_false Bool.false_ne_true (by omega)
  · rename_i hpos
    split
    · exact iff_of_true rfl (by omega)
    · have hk : k ≤ 308 := by omega
      rw [beq_iff_eq, Int.toNat_natCast, Nat.pow_eq, Floating.ofNat_mul_ofNat_eq_infinite_iff
        (nearest_significand_lt_bound hm) (nearest_power_lt_bound hk), ← decimalPosition]
      omega

/-- **A greater significand with more digits behind it** is too large as well. -/
theorem isTooLarge_mono (hm : m ≤ m') (hm' : m' < wordLimit) (hk : k ≤ k')
    (h : isTooLarge m k = true) : isTooLarge m' k' = true := by
  rw [isTooLarge_iff (Nat.lt_of_le_of_lt hm hm')] at h
  rw [isTooLarge_iff hm']
  refine ⟨Nat.lt_of_lt_of_le h.1 hm, h.2.imp ?_ ?_⟩
  · exact fun hlarge => Nat.lt_of_lt_of_le hlarge hk
  · exact fun hbound => Nat.le_trans hbound (decimalPosition_mono hm hk)

/-! ## The least integer that is too large -/

/-- The significand of the least integer that is too large to be kept. -/
def leastSignificand : Nat := 17976931348623156225

/-- The number of digits behind it. -/
def leastDropped : Nat := 289

/-- The least magnitude that is too large to be kept. -/
def leastOversized : Nat := leastSignificand * 10 ^ leastDropped

/-- The integer is too large to be kept: the digits of it that fit in a word, times ten for each
digit that does not, are infinite, if the two factors are rounded first. -/
def IsOversized (n : Int) : Prop := leastOversized ≤ n.natAbs

instance (n : Int) : Decidable (IsOversized n) := inferInstanceAs (Decidable (_ ≤ _))

/-- With fewer digits behind it, no significand is too large. -/
theorem isTooLarge_of_lt (hm : m < wordLimit) (hk : k < leastDropped) : isTooLarge m k = false := by
  have hgreatest : isTooLarge (wordLimit - 1) (leastDropped - 1 : Nat) = false := by decide +kernel
  rw [Bool.eq_false_iff] at hgreatest ⊢
  exact fun h => hgreatest
    (isTooLarge_mono (Nat.le_sub_one_of_lt hm) (by decide) (Nat.le_sub_one_of_lt hk) h)

theorem isTooLarge_leastDropped_iff (hm : m < wordLimit) :
    isTooLarge m leastDropped = true ↔ leastSignificand ≤ m := by
  have hleast : isTooLarge leastSignificand leastDropped = true := by decide +kernel
  have hbelow : isTooLarge (leastSignificand - 1 : Nat) leastDropped = false := by decide +kernel
  refine ⟨fun h => ?_, fun h => isTooLarge_mono h hm (Nat.le_refl _) hleast⟩
  rw [← Nat.not_lt]
  exact fun hlt => Bool.eq_false_iff.1 hbelow
    (isTooLarge_mono (Nat.le_sub_one_of_lt hlt) (by decide) (Nat.le_refl _) h)

/-- The least significand before a digit that is dropped. -/
def leastFull : Nat := wordLimit / 10

/-- With more digits behind it, every significand is too large that has all the digits it can. -/
theorem isTooLarge_of_gt (hm : m < wordLimit) (hfull : leastFull ≤ m) (hk : leastDropped < k) :
    isTooLarge m k = true := by
  have hleast : isTooLarge leastFull (leastDropped + 1 : Nat) = true := by decide +kernel
  exact isTooLarge_mono hfull hm hk hleast

/-- A number with the digits of `m` in front and `k` more behind them is compared with the least
oversized one by the number of the digits first, and by the digits in front if that is the same. -/
theorem leastOversized_le_iff {n : Nat} (hm : m < wordLimit) (hfull : k ≠ 0 → leastFull ≤ m)
    (hlo : m * 10 ^ k ≤ n) (hhi : n < (m + 1) * 10 ^ k) :
    leastOversized ≤ n ↔ isTooLarge m k = true := by
  rcases Nat.lt_trichotomy k leastDropped with hk | rfl | hk
  · rw [isTooLarge_of_lt hm hk]
    refine iff_of_false (Nat.not_le.2 ?_) Bool.false_ne_true
    calc n < (m + 1) * 10 ^ k := hhi
      _ ≤ wordLimit * 10 ^ (leastDropped - 1) :=
        Nat.mul_le_mul hm (pow_le_pow_right₀ (by decide) (Nat.le_sub_one_of_lt hk))
      _ ≤ leastOversized := by decide +kernel
  · rw [isTooLarge_leastDropped_iff hm]
    constructor
    · intro h
      exact Nat.le_of_lt_succ (Nat.lt_of_mul_lt_mul_right (Nat.lt_of_le_of_lt h hhi))
    · exact fun h => Nat.le_trans (Nat.mul_le_mul_right _ h) hlo
  · have hfull' : leastFull ≤ m := hfull (Nat.ne_of_gt (Nat.zero_lt_of_lt hk))
    refine iff_of_true ?_ (isTooLarge_of_gt hm hfull' hk)
    calc leastOversized ≤ leastFull * 10 ^ (leastDropped + 1) := by decide +kernel
      _ ≤ m * 10 ^ k := Nat.mul_le_mul hfull' (pow_le_pow_right₀ (by decide) hk)
      _ ≤ n := hlo

/-- The digits of a number that fit in a word, and how many do not. -/
theorem extend_toDigits_mem (n : Nat) :
    (extend 0 (Nat.toDigits 10 n)).1 * 10 ^ (extend 0 (Nat.toDigits 10 n)).2 ≤ n ∧
      n < ((extend 0 (Nat.toDigits 10 n)).1 + 1) * 10 ^ (extend 0 (Nat.toDigits 10 n)).2 := by
  have h := extend_mem (isDigits_toDigits n).2 0
  rwa [Nat.ofDigitChars_ten_toDigits] at h

/-- **The oversized integers are those whose digits are too large for a decimal.** -/
theorem isOversized_iff {n : Int} : IsOversized n ↔
    isTooLarge (extend 0 (Nat.toDigits 10 n.natAbs)).1
      (extend 0 (Nat.toDigits 10 n.natAbs)).2 = true := by
  obtain ⟨hlo, hhi⟩ := extend_toDigits_mem n.natAbs
  have hfits := extend_fst_lt (show 0 < wordLimit by decide) (Nat.toDigits 10 n.natAbs)
  refine leastOversized_le_iff hfits (fun hdropped => ?_) hlo hhi
  have hlimit := wordLimit_le_of_extend (isDigits_toDigits n.natAbs).2 hdropped
  unfold leastFull
  omega

/-- An oversized integer does not fit in a word. -/
theorem IsOversized.not_isWord {n : Int} (h : IsOversized n) : ¬ IsWord n := by
  have hlimit : wordLimit ≤ leastOversized := by decide +kernel
  have hlarge : wordLimit ≤ n.natAbs := Nat.le_trans hlimit h
  rintro ⟨hlo, hhi⟩
  unfold wordLimit at hlarge
  omega

end PointerMotion.Json.Reader
