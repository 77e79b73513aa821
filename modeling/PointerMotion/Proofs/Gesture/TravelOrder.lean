import PointerMotion.Gesture.Travel
import PointerMotion.Proofs.Floating.Multiples

/-!
# A shorter way and a higher speed take no longer

The time of a move has three cases, and it does not fall from one of them to the next.  No distance
takes no time, at speed zero too.  A distance at another speed takes a whole number of milliseconds.
A distance at speed zero takes the longest duration.

Within the case in the middle, the quotient of distance and speed is computed with two roundings and
cut, and all of this is monotone (`travelMillis_mono`).  The product can leave the range, where it
is infinite, and so is the quotient then; both stay above everything else.  What is cut to the
greatest number of milliseconds stays there.
-/

namespace PointerMotion

open Floating (Format)

variable {d d₁ d₂ : Double} {s s₁ s₂ : UInt32}

theorem toNat_speed_pos (hs : s ≠ 0) : 0 < s.toNat :=
  Nat.pos_of_ne_zero fun hzero => hs (UInt32.toNat_inj.1 hzero)

/-- What is not below a speed is not zero if this speed is not. -/
theorem speed_ne_zero_of_le (hs₂ : s₂ ≠ 0) (hs : s₂ ≤ s₁) : s₁ ≠ 0 := by
  rintro rfl
  exact absurd (toNat_speed_pos hs₂) (Nat.not_lt.2 (UInt32.le_iff_toNat_le.1 hs))

theorem toNat_speed_le_full (s : UInt32) : s.toNat ≤ Format.binary64.full :=
  Nat.le_trans (Nat.le_of_lt s.toNat_lt) (by decide)

/-! ## The quotient -/

/-- Where the milliseconds for a distance stand. -/
theorem position_travelMillis {p : Nat} (hd : d.position = some (p : Int)) (hs : s ≠ 0) :
    (travelMillis d s).position = some
      ((Format.binary64.part (Format.binary64.multiple 1000 p) s.toNat : Nat) : Int) := by
  have hproduct := Floating.position_ofNat_mul (n := 1000) hd (by decide) (by decide) (by decide)
  exact Floating.position_div_ofNat hproduct (toNat_speed_pos hs) (toNat_speed_le_full s)
    (by decide)

/-- **The quotient of distance and speed** does not fall when the distance grows or the speed gets
lower. -/
theorem travelMillis_mono (h₀ : .zero ≤ d₁) (hd : d₁ ≤ d₂) (hs₂ : s₂ ≠ 0) (hs : s₂ ≤ s₁) :
    travelMillis d₁ s₁ ≤ travelMillis d₂ s₂ := by
  have hle : s₂.toNat ≤ s₁.toNat := UInt32.le_iff_toNat_le.1 hs
  have hs₁ := speed_ne_zero_of_le hs₂ hs
  obtain ⟨p₁, hp₁, -⟩ := Floating.exists_position_of_le (p := 0) rfl h₀
  obtain ⟨p₂, hp₂, hp⟩ := Floating.exists_position_of_le hp₁ hd
  rw [Floating.le_iff_of_position (position_travelMillis hp₁ hs₁) (position_travelMillis hp₂ hs₂),
    Int.ofNat_le]
  exact Format.part_mono (Format.multiple_mono hp) (toNat_speed_pos hs₂) hle

/-! ## The time of a move -/

theorem Duration.ofMillis_mono {m n : Nat} (h : m ≤ n) : ofMillis m ≤ ofMillis n := by
  rw [le_iff, ofMillis, ofMillis, nanos_clamp, nanos_clamp]
  omega

/-- **The time of a move is monotone.**  Over a distance that is not negative, also an infinite one,
a move does not take longer than over a greater distance at a lower speed, speed zero included. -/
theorem travelTime_mono (h₀ : .zero ≤ d₁) (hd : d₁ ≤ d₂) (hs : s₂ ≤ s₁) :
    (travelTime d₁ s₁).value ≤ (travelTime d₂ s₂).value := by
  by_cases hzero₁ : d₁.IsZero
  · rw [travelTime_of_isZero hzero₁]
    exact Nat.zero_le _
  · have hzero₂ : ¬ d₂.IsZero := by
      intro hzero₂
      obtain ⟨p₁, hp₁, -⟩ := Floating.exists_position_of_le (p := 0) rfl h₀
      rw [Floating.le_iff_of_position hp₁ hzero₂] at hd
      obtain rfl : p₁ = 0 := by omega
      exact hzero₁ hp₁
    by_cases hs₂ : s₂ = 0
    · rw [hs₂, travelTime_speed_zero hzero₂]
      exact Duration.nanos_le_longest _
    · rw [travelTime_of_ne hzero₁ (speed_ne_zero_of_le hs₂ hs), travelTime_of_ne hzero₂ hs₂]
      refine Duration.ofMillis_mono (Int.toNat_le_toNat ?_)
      exact Floating.truncate_mono (Int.le_refl 0) (Int.natCast_nonneg _)
        (travelMillis_mono h₀ hd hs₂ hs)

/-- Half a pixel at three pixels per second, and a distance whose product with a thousand leaves the
range, at one pixel per second: the quotient is infinite, and cut to the greatest number. -/
theorem travelTime_mono_overflow :
    let d₁ : Double := .ofRatio .binary64 1 2
    let d₂ : Double := .ofNat .binary64 (2 ^ 1023)
    .zero ≤ d₁ ∧ d₁ ≤ d₂ ∧ (1 : UInt32) ≤ 3 ∧
      travelMillis d₂ 1 = .infinite false ∧
      (travelTime d₁ 3).value = .ofMillis 166 ∧
      (travelTime d₂ 1).value = .ofMillis Duration.greatestWritten ∧
      (travelTime d₁ 3).value ≤ (travelTime d₂ 1).value := by
  intro d₁ d₂
  have h₀ : .zero ≤ d₁ := by decide +kernel
  have hd : d₁ ≤ d₂ := by decide +kernel
  have hs : (1 : UInt32) ≤ 3 := by decide
  exact ⟨h₀, hd, hs, by decide +kernel, by decide +kernel, by decide +kernel,
    travelTime_mono h₀ hd hs⟩

end PointerMotion
