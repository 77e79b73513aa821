import Mathlib.Tactic.Ring
import PointerMotion.Floating.Arithmetic
import PointerMotion.Floating.Word

/-!
# Rounding is monotone

The quotients that are rounded up to `q` or less are those below the middle of `q` and `q + 1`,
and the middle itself if `q` is even (`roundDiv_le_iff`).  This does not mention the quotient and
the remainder by which `roundDiv` is computed, so it compares the roundings of different quotients
at once.

Magnitudes are rounded to a multiple of a spacing, and the spacing depends on what is rounded.  As
long as two quotients have the same spacing, their multiples compare.  Where the spacings differ,
there is a power of two between the quotients: the smaller one is rounded to it at most
(`roundDiv_spacing_le`), and the greater one to it at least.

From `Format.nearest_mono` and the fact that a magnitude is rounded to itself follow the two bounds
by magnitudes, which are what other statements use: a magnitude above a quotient, or below it, is
still there after rounding.
-/

namespace PointerMotion

/-- **The quotients that are rounded to at most `q`.** -/
theorem roundDiv_le_iff {num den q : Nat} (h : 0 < den) :
    roundDiv num den ≤ q ↔
      2 * num < (2 * q + 1) * den ∨ 2 * num = (2 * q + 1) * den ∧ q % 2 = 0 := by
  have hmod := Nat.mod_lt num h
  have hdiv := Nat.div_add_mod num den
  unfold roundDiv
  generalize num / den = k at hdiv
  generalize num % den = r at hdiv hmod
  subst hdiv
  rcases Nat.lt_trichotomy k q with hlt | rfl | hgt
  · -- the quotient is below the next integer already
    obtain ⟨j, rfl⟩ := Nat.exists_eq_add_of_le hlt
    have hmiddle : (2 * (k.succ + j) + 1) * den = 2 * (den * k) + 2 * (j * den) + 3 * den := by
      rw [Nat.succ_eq_add_one]
      ring
    split <;> omega
  · have hmiddle : (2 * k + 1) * den = 2 * (den * k) + den := by ring
    split <;> omega
  · obtain ⟨j, rfl⟩ := Nat.exists_eq_add_of_le hgt
    have hmiddle : 2 * (den * (q.succ + j)) = (2 * q + 1) * den + den + 2 * (j * den) := by
      rw [Nat.succ_eq_add_one]
      ring
    split <;> omega

/-- A smaller quotient is not rounded to a greater integer. -/
theorem roundDiv_mono {num₁ den₁ num₂ den₂ : Nat} (h₁ : 0 < den₁) (h₂ : 0 < den₂)
    (h : num₁ * den₂ ≤ num₂ * den₁) : roundDiv num₁ den₁ ≤ roundDiv num₂ den₂ := by
  have hround := (roundDiv_le_iff h₂).1 (Nat.le_refl (roundDiv num₂ den₂))
  generalize roundDiv num₂ den₂ = q at hround ⊢
  rw [roundDiv_le_iff h₁]
  -- both sides of the comparison with the middle are brought to the product of the denominators
  have hcompare : 2 * num₁ * den₂ ≤ 2 * num₂ * den₁ := by
    rw [Nat.mul_assoc, Nat.mul_assoc]
    exact Nat.mul_le_mul_left 2 h
  have hswap : (2 * q + 1) * den₂ * den₁ = (2 * q + 1) * den₁ * den₂ := by ring
  rcases hround with hlt | ⟨heq, heven⟩
  · refine .inl (Nat.lt_of_mul_lt_mul_right (a := den₂) ?_)
    calc 2 * num₁ * den₂ ≤ 2 * num₂ * den₁ := hcompare
      _ < (2 * q + 1) * den₂ * den₁ := Nat.mul_lt_mul_of_pos_right hlt h₁
      _ = (2 * q + 1) * den₁ * den₂ := hswap
  · rw [heq, hswap] at hcompare
    rcases Nat.lt_or_eq_of_le (Nat.le_of_mul_le_mul_right hcompare h₂) with hlt | heq
    · exact .inl hlt
    · exact .inr ⟨heq, heven⟩

namespace Floating.Format

variable {F : Format}

/-! ## Spacings -/

theorem step_mono {u v : Nat} (h : u ≤ v) : F.step u ≤ F.step v := by
  have hlog : u.log2 ≤ v.log2 := by
    rcases Nat.eq_zero_or_pos u with rfl | hu
    · simp
    · exact (Nat.le_log2 (by omega)).2 (Nat.le_trans (Nat.log2_self_le (by omega)) h)
  unfold step
  omega

/-- Spacings differ by a factor of two at least. -/
theorem spacing_eq_or_two_mul_le {u v : Nat} (h : u ≤ v) :
    F.spacing u = F.spacing v ∨ 2 * F.spacing u ≤ F.spacing v := by
  rcases Nat.lt_or_eq_of_le (F.step_mono h) with hlt | heq
  · right
    have := Nat.pow_le_pow_right (show 0 < 2 by decide) hlt
    rwa [Nat.pow_succ, Nat.mul_comm] at this
  · left
    rw [spacing, spacing, heq]

theorem two_mul_fractions : 2 * F.fractions = F.full := by
  have := F.precision_pos
  rw [fractions, full, Nat.pow_eq, Nat.pow_eq, Nat.mul_comm, ← Nat.pow_succ]
  congr
  omega

/-- What has a spacing of more than one has its leading bit. -/
theorem fractions_mul_spacing_le {u : Nat} (h : 1 < F.spacing u) :
    F.fractions * F.spacing u ≤ u := by
  have hstep : F.step u ≠ 0 := by
    intro h0
    rw [spacing, h0] at h
    exact absurd h (by decide)
  have hu : u ≠ 0 := by
    rintro rfl
    have := F.precision_pos
    simp [step] at hstep
    omega
  have hpower : F.fractions * F.spacing u = Nat.pow 2 u.log2 := by
    have := F.precision_pos
    rw [fractions, spacing, Nat.pow_eq, Nat.pow_eq, Nat.pow_eq, ← Nat.pow_add]
    unfold step at hstep ⊢
    congr
    omega
  rw [hpower]
  exact Nat.log2_self_le hu

/-- **The greatest magnitude below a power of two** is one spacing below it. -/
theorem add_two_pow_le {u k : Nat} (hu : F.spacing u ∣ u) (h : u < 2 ^ (F.precision + k)) :
    u + 2 ^ k ≤ 2 ^ (F.precision + k) := by
  have hprecision := F.two_le_precision
  have hhalf : 2 * 2 ^ (F.precision + k - 1) = 2 ^ (F.precision + k) := by
    rw [← Nat.pow_succ']
    congr
    omega
  rcases Nat.lt_or_ge u (2 ^ (F.precision + k - 1)) with hlt | hge
  · have : 2 ^ k ≤ 2 ^ (F.precision + k - 1) := Nat.pow_le_pow_right (by decide) (by omega)
    omega
  · -- the spacing between the last two powers of two is `2 ^ k`
    have hpos : u ≠ 0 := by
      have := Nat.two_pow_pos (F.precision + k - 1)
      omega
    have hlower : F.precision + k - 1 ≤ u.log2 := (Nat.le_log2 hpos).2 hge
    have hupper : u.log2 < F.precision + k := (Nat.log2_lt hpos).2 h
    have hspacing : F.spacing u = 2 ^ k := by
      rw [spacing, step, show u.log2 + 1 - F.precision = k by omega]
      rfl
    obtain ⟨q, rfl⟩ := hspacing ▸ hu
    rw [Nat.pow_add', Nat.mul_lt_mul_left (Nat.two_pow_pos k)] at h
    rw [← Nat.mul_succ, Nat.pow_add']
    exact Nat.mul_le_mul_left _ h

/-! ## Rounding to a magnitude -/

/-- **Rounding is monotone.** -/
theorem nearest_mono {num₁ den₁ num₂ den₂ : Nat} (h₁ : 0 < den₁) (h₂ : 0 < den₂)
    (h : num₁ * den₂ ≤ num₂ * den₁) : F.nearest num₁ den₁ ≤ F.nearest num₂ den₂ := by
  have hfloor : num₁ / den₁ ≤ num₂ / den₂ := by
    rw [Nat.le_div_iff_mul_le h₂]
    refine Nat.le_of_mul_le_mul_right (c := den₁) ?_ h₁
    calc num₁ / den₁ * den₂ * den₁ = num₁ / den₁ * den₁ * den₂ := by ring
      _ ≤ num₁ * den₂ := Nat.mul_le_mul_right den₂ (Nat.div_mul_le_self num₁ den₁)
      _ ≤ num₂ * den₁ := h
  unfold nearest
  have hpos := F.spacing_pos (num₁ / den₁)
  have hpos' := F.spacing_pos (num₂ / den₂)
  rcases F.spacing_eq_or_two_mul_le hfloor with heq | hle
  · rw [heq] at hpos ⊢
    refine Nat.mul_le_mul_right _ (roundDiv_mono (Nat.mul_pos h₁ hpos) (Nat.mul_pos h₂ hpos) ?_)
    rw [← Nat.mul_assoc, ← Nat.mul_assoc]
    exact Nat.mul_le_mul_right _ h
  · -- the power of two in between is the greater spacing times `fractions`
    have hbetween : F.fractions ≤ num₂ / den₂ / F.spacing (num₂ / den₂) := by
      rw [Nat.le_div_iff_mul_le hpos']
      exact fractions_mul_spacing_le (by omega)
    calc roundDiv num₁ (den₁ * F.spacing (num₁ / den₁)) * F.spacing (num₁ / den₁)
        ≤ F.full * F.spacing (num₁ / den₁) := Nat.mul_le_mul_right _ (roundDiv_spacing_le _ _)
      _ = F.fractions * (2 * F.spacing (num₁ / den₁)) := by rw [← two_mul_fractions]; ring
      _ ≤ F.fractions * F.spacing (num₂ / den₂) := Nat.mul_le_mul_left _ hle
      _ ≤ num₂ / den₂ / F.spacing (num₂ / den₂) * F.spacing (num₂ / den₂) :=
        Nat.mul_le_mul_right _ hbetween
      _ ≤ roundDiv num₂ (den₂ * F.spacing (num₂ / den₂)) * F.spacing (num₂ / den₂) := by
        rw [Nat.div_div_eq_div_mul]
        exact Nat.mul_le_mul_right _ (div_le_roundDiv _ _)

/-- A magnitude above a quotient is above it after rounding. -/
theorem nearest_le {num den u : Nat} (hden : 0 < den) (hu : F.spacing u ∣ u)
    (h : num ≤ u * den) : F.nearest num den ≤ u := by
  rw [← nearest_of_dvd hu]
  exact nearest_mono hden Nat.one_pos (by rwa [Nat.mul_one])

/-- A magnitude below a quotient is below it after rounding. -/
theorem le_nearest {num den u : Nat} (hden : 0 < den) (hu : F.spacing u ∣ u)
    (h : u * den ≤ num) : u ≤ F.nearest num den := by
  rw [← nearest_of_dvd hu]
  exact nearest_mono Nat.one_pos hden (by rwa [Nat.mul_one])

/-- Powers of two are magnitudes, whatever the range. -/
theorem spacing_dvd_two_pow (k : Nat) : F.spacing (Nat.pow 2 k) ∣ Nat.pow 2 k := by
  have h := F.spacing_dvd_mul (q := 1) k (Nat.pow_pos (by decide))
  rwa [Nat.one_mul] at h

/-- Rounding to a magnitude does not more than double a number of units: the next power of two is
a magnitude. -/
theorem nearest_le_two_mul (u : Nat) : F.nearest u 1 ≤ 2 * u := by
  rcases Nat.eq_zero_or_pos u with rfl | hu
  · rw [nearest_zero]
  · have hlt : u < 2 ^ (u.log2 + 1) := Nat.lt_log2_self
    have hle : 2 ^ u.log2 ≤ u := Nat.log2_self_le (Nat.ne_of_gt hu)
    calc F.nearest u 1 ≤ 2 ^ (u.log2 + 1) :=
          nearest_le Nat.one_pos (spacing_dvd_two_pow _) (by rw [Nat.mul_one]; exact hlt.le)
      _ = 2 * 2 ^ u.log2 := Nat.pow_succ'
      _ ≤ 2 * u := Nat.mul_le_mul_left 2 hle

/-- A magnitude of one at least is not rounded to zero. -/
theorem nearest_pos {num den : Nat} (hden : 0 < den) (h : den ≤ num) : 0 < F.nearest num den :=
  le_nearest hden (spacing_dvd_two_pow 0) ((Nat.one_mul den).symm ▸ h)

theorem range_pos : 0 < F.range := Nat.two_pow_pos _

theorem unit_lt_bound : F.unit < F.bound :=
  Nat.pow_lt_pow_right (by decide) (by have := F.range_pos; omega)

theorem holds_unit : F.Holds F.unit := ⟨unit_lt_bound, spacing_dvd_two_pow _⟩

theorem two_pow_mul_unit_lt_bound {k : Nat} (hk : k < F.range) : 2 ^ k * F.unit < F.bound :=
  calc 2 ^ k * F.unit = 2 ^ (k + F.scale) := (Nat.pow_add 2 k F.scale).symm
    _ < F.bound := Nat.pow_lt_pow_right (by decide) (Nat.add_lt_add_right hk _)

theorem spacing_dvd_two_pow_mul_unit (k : Nat) : F.spacing (2 ^ k * F.unit) ∣ 2 ^ k * F.unit := by
  rw [unit, Nat.pow_eq, ← Nat.pow_add]
  exact spacing_dvd_two_pow (k + F.scale)

/-- The powers of two in range belong to the format. -/
theorem holds_two_pow_mul_unit {k : Nat} (hk : k < F.range) : F.Holds (2 ^ k * F.unit) :=
  ⟨two_pow_mul_unit_lt_bound hk, spacing_dvd_two_pow_mul_unit k⟩

/-- A number below a power of two is not rounded past it. -/
theorem nearest_mul_unit_le {n k : Nat} (hn : n ≤ 2 ^ k) :
    F.nearest (n * F.unit) 1 ≤ 2 ^ k * F.unit := by
  refine nearest_le Nat.one_pos (spacing_dvd_two_pow_mul_unit k) ?_
  rw [Nat.mul_one]
  exact Nat.mul_le_mul_right F.unit hn

/-- A number below a power of two in range is not rounded out of range. -/
theorem nearest_mul_unit_lt_bound {n k : Nat} (hn : n ≤ 2 ^ k) (hk : k < F.range) :
    F.nearest (n * F.unit) 1 < F.bound :=
  Nat.lt_of_le_of_lt (nearest_mul_unit_le hn) (two_pow_mul_unit_lt_bound hk)

end Floating.Format

namespace Floating

variable {F : Format}

/-! ## Values -/

theorem ofUnits_of_lt {negative : Bool} {num den : Nat} (h : F.nearest num den < F.bound) :
    ofUnits F negative num den =
      .finite negative (F.nearest num den) ⟨h, F.spacing_dvd_nearest num den⟩ :=
  dif_pos h

/-- Only what is rounded to zero is zero. -/
theorem isZero_ofUnits_iff {negative : Bool} {num den : Nat} :
    (ofUnits F negative num den).IsZero ↔ F.nearest num den = 0 := by
  have hbound : 0 < F.bound := Nat.two_pow_pos _
  unfold IsZero ofUnits
  split
  · cases negative <;> simp [position]
  · cases negative <;> simp [position] <;> omega

/-- No positive number is rounded to zero. -/
theorem not_isZero_ofNat {n : Nat} (hn : 0 < n) : ¬ (ofNat F n).IsZero := by
  rw [ofNat, ofRatio, isZero_ofUnits_iff]
  have hle : 1 ≤ n * F.unit := Nat.mul_pos hn F.unit_pos
  have := F.nearest_pos Nat.one_pos hle
  omega

theorem ofNat_zero : ofNat F 0 = zero := by
  rw [ofNat, ofRatio, Nat.zero_mul]
  exact ofUnits_of_holds false F.holds_zero

theorem ofNat_one : ofNat F 1 = .finite false F.unit Format.holds_unit := by
  rw [ofNat, ofRatio, Nat.one_mul]
  exact ofUnits_of_holds false Format.holds_unit

/-- **A product with a value of one at most** is no greater than the other factor. -/
theorem exists_mul_eq_finite {s t : Bool} {u v : Nat} (hu : F.Holds u) (hv : F.Holds v)
    (hle : v ≤ F.unit) : ∃ w hw, w ≤ u ∧ (v = 0 → w = 0) ∧
      (.finite s u hu * .finite t v hv : Floating F) = .finite (s != t) w hw := by
  have hnearest : F.nearest (u * v) F.unit ≤ u :=
    F.nearest_le F.unit_pos hu.2 (Nat.mul_le_mul_left u hle)
  refine ⟨_, _, hnearest, ?_, ofUnits_of_lt (Nat.lt_of_le_of_lt hnearest hu.1)⟩
  rintro rfl
  exact F.nearest_zero F.unit

end Floating
end PointerMotion
