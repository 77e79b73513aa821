import PointerMotion.Proofs.Floating.Order

/-!
# Arithmetic on positions

A finite number stands at a position, which is an integer number of units (`StandsAt`).  An
operation on finite numbers is therefore an operation on integers: the exact result in units,
rounded to a position (`Format.round`).  There is one statement for each operation here, and none
of them mentions signs, magnitudes or the representation of a value:

* `standsAt_ofInt` for the value nearest to an integer, which stands at `Format.nearestInt`;
* `StandsAt.add` for a sum, and `StandsAt.sub_eq_or_eq_neg` for differences up to their sign;
* `StandsAt.mul` for a product with an integer of the format;
* `standsAt_ratio` for the quotient of two natural numbers, which stands at `Format.ratio`;
* `StandsAt.truncate_eq` for the integer part.

Rounding to a position is monotone and odd, and fixes the positions of the format.  So what lies
between two integers of the format still does after it was rounded (`Format.round_mem`).
-/

namespace PointerMotion.Floating

/-! ## Signs -/

theorem signed_mul (negative : Bool) (u v : Nat) :
    signed negative (u * v) = signed negative u * v := by
  cases negative with
  | false => rw [signed_false, signed_false, Int.natCast_mul]
  | true => rw [signed_true, signed_true, Int.natCast_mul, Int.neg_mul]

theorem signed_bne_mul (s t : Bool) (u v : Nat) :
    signed (s != t) (u * v) = signed s u * signed t v := by
  cases s <;> cases t <;> simp

theorem signed_tdiv (negative : Bool) (u v : Nat) :
    signed negative (u / v) = (signed negative u).tdiv v := by
  have hdiv : ((u / v : Nat) : Int) = (u : Int).tdiv v := by
    rw [Int.natCast_ediv, Int.tdiv_eq_ediv_of_nonneg (Int.natCast_nonneg u)]
  cases negative with
  | false => rw [signed_false, signed_false, hdiv]
  | true => rw [signed_true, signed_true, Int.neg_tdiv, hdiv]

/-- What is monotone on magnitudes and keeps signs is monotone. -/
theorem signed_natAbs_mono {f : Nat → Nat} (hf : ∀ {u v}, u ≤ v → f u ≤ f v) {i j : Int}
    (h : i ≤ j) : signed (decide (i < 0)) (f i.natAbs) ≤ signed (decide (j < 0)) (f j.natAbs) := by
  by_cases hi : i < 0
  · rw [decide_eq_true hi, signed_true]
    by_cases hj : j < 0
    · have := hf (show j.natAbs ≤ i.natAbs by omega)
      rw [decide_eq_true hj, signed_true]
      omega
    · rw [decide_eq_false hj, signed_false]
      omega
  · have := hf (show i.natAbs ≤ j.natAbs by omega)
    rw [decide_eq_false hi, decide_eq_false (by omega), signed_false, signed_false]
    omega

variable {F : Format}

theorem neg_ofUnits (negative : Bool) (num den : Nat) :
    -ofUnits F negative num den = ofUnits F (!negative) num den := by
  unfold ofUnits
  split <;> rfl

/-- The sign of a rounded value is all that its sign bit decides. -/
theorem ofUnits_eq_or_eq_neg (s t : Bool) (num den : Nat) :
    ofUnits F s num den = ofUnits F t num den ∨ ofUnits F s num den = -ofUnits F t num den := by
  rw [neg_ofUnits]
  cases s <;> cases t <;> simp

/-! ## Rounding to a position -/

namespace Format

/-- The position nearest to a number of units, whatever the range. -/
def round (F : Format) (i : Int) : Int := signed (decide (i < 0)) (F.nearest i.natAbs 1)

/-- The position of the value nearest to an integer, whatever the range. -/
def nearestInt (F : Format) (i : Int) : Int :=
  signed (decide (i < 0)) (F.nearest (i.natAbs * F.unit) 1)

/-- A sign goes through rounding, also where it is the sign of a zero. -/
theorem signed_nearest (negative : Bool) (u : Nat) :
    signed negative (F.nearest u 1) = F.round (signed negative u) := by
  rw [round, natAbs_signed]
  rcases Nat.eq_zero_or_pos u with rfl | hu
  · rw [F.nearest_zero]
    cases negative <;> simp
  · cases negative with
    | false => rw [decide_eq_false (by rw [signed_false]; omega)]
    | true => rw [decide_eq_true (by rw [signed_true]; omega)]

theorem nearestInt_eq_round (i : Int) : F.nearestInt i = F.round (i * F.unit) := by
  rw [nearestInt, signed_nearest, signed_mul, signed_natAbs]

theorem natAbs_round (i : Int) : (F.round i).natAbs = F.nearest i.natAbs 1 := natAbs_signed _ _

@[simp] theorem round_zero : F.round 0 = 0 := by
  rw [round, Int.natAbs_zero, F.nearest_zero]
  rfl

/-- Rounding does not look at the sign. -/
theorem round_neg (i : Int) : F.round (-i) = -F.round i := by
  rw [← signed_natAbs i, ← signed_not, ← signed_nearest, ← signed_nearest, signed_not]

theorem nearestInt_neg (i : Int) : F.nearestInt (-i) = -F.nearestInt i := by
  rw [nearestInt_eq_round, nearestInt_eq_round, Int.neg_mul, round_neg]

/-- **Rounding to a position is monotone.** -/
theorem round_mono {i j : Int} (h : i ≤ j) : F.round i ≤ F.round j := by
  refine signed_natAbs_mono (f := fun u => F.nearest u 1) (fun huv => ?_) h
  exact F.nearest_mono Nat.one_pos Nat.one_pos (Nat.mul_le_mul_right 1 huv)

/-- The position of a number of the format is not rounded. -/
theorem round_of_dvd {i : Int} (h : F.spacing i.natAbs ∣ i.natAbs) : F.round i = i := by
  rw [round, nearest_of_dvd h, signed_natAbs]

/-- An integer that fits in a significand is not rounded. -/
theorem round_mul_unit {n : Int} (h : n.natAbs ≤ F.full) : F.round (n * F.unit) = n * F.unit := by
  refine round_of_dvd ?_
  rw [Int.natAbs_mul, Int.natAbs_natCast]
  exact F.spacing_dvd_mul F.scale h

theorem nearestInt_of_natAbs_le {i : Int} (h : i.natAbs ≤ F.full) :
    F.nearestInt i = i * F.unit := by
  rw [nearestInt_eq_round, round_mul_unit h]

/-- **What lies between two integers of the format** is rounded to something between them. -/
theorem round_mem {i lo hi : Int} (hlo : lo.natAbs ≤ F.full) (hhi : hi.natAbs ≤ F.full)
    (h : lo * F.unit ≤ i ∧ i ≤ hi * F.unit) :
    lo * F.unit ≤ F.round i ∧ F.round i ≤ hi * F.unit := by
  have hlower := F.round_mono h.1
  have hupper := F.round_mono h.2
  rw [round_mul_unit hlo] at hlower
  rw [round_mul_unit hhi] at hupper
  exact ⟨hlower, hupper⟩

/-- A number of units within a power of two is not rounded past it. -/
theorem natAbs_round_le {i : Int} {k : Nat} (h : i.natAbs ≤ 2 ^ k * F.unit) :
    (F.round i).natAbs ≤ 2 ^ k * F.unit := by
  rw [natAbs_round]
  refine nearest_le Nat.one_pos (spacing_dvd_two_pow_mul_unit k) ?_
  rwa [Nat.mul_one]

/-- A number of units within a power of two in range is not rounded out of range. -/
theorem natAbs_round_lt_bound {i : Int} {k : Nat} (h : i.natAbs ≤ 2 ^ k * F.unit)
    (hk : k < F.range) : (F.round i).natAbs < F.bound :=
  Nat.lt_of_le_of_lt (natAbs_round_le h) (two_pow_mul_unit_lt_bound hk)

/-- What was rounded once is not rounded again. -/
theorem round_nearestInt (i : Int) : F.round (F.nearestInt i) = F.nearestInt i := by
  refine round_of_dvd ?_
  rw [nearestInt, natAbs_signed]
  exact F.spacing_dvd_nearest _ _

/-- A common factor of numerator and denominator does not matter. -/
theorem nearest_mul_right (num : Nat) {den k : Nat} (hden : 0 < den) (hk : 0 < k) :
    F.nearest (num * k) (den * k) = F.nearest num den := by
  have hpos : 0 < den * k := Nat.mul_pos hden hk
  have hcross : num * k * den = num * (den * k) := by ring
  exact Nat.le_antisymm (F.nearest_mono hpos hden hcross.le) (F.nearest_mono hden hpos hcross.ge)

end Format

/-! ## Where results stand -/

/-- The value is finite, and this is its position. -/
def StandsAt (x : Floating F) (i : Int) : Prop := ∃ t u h, x = .finite t u h ∧ signed t u = i

variable {x y : Floating F} {i j : Int}

theorem standsAt_ofUnits (negative : Bool) {num den : Nat} (h : F.nearest num den < F.bound) :
    (ofUnits F negative num den).StandsAt (signed negative (F.nearest num den)) :=
  ⟨_, _, _, ofUnits_of_lt h, rfl⟩

theorem standsAt_ofInt {i : Int} (h : F.nearest (i.natAbs * F.unit) 1 < F.bound) :
    (ofInt F i).StandsAt (F.nearestInt i) :=
  standsAt_ofUnits _ h

/-- **A sum** stands at the sum of the positions, rounded. -/
theorem StandsAt.add (hx : x.StandsAt i) (hy : y.StandsAt j)
    (h : (F.round (i + j)).natAbs < F.bound) : (x + y).StandsAt (F.round (i + j)) := by
  obtain ⟨s, u, hu, rfl, rfl⟩ := hx
  obtain ⟨t, v, hv, rfl, rfl⟩ := hy
  generalize hsum : signed s u + signed t v = sum at h ⊢
  have hvalue : (.finite s u hu + .finite t v hv : Floating F) =
      ofUnits F (if sum = 0 then s && t else decide (sum < 0)) sum.natAbs 1 := by
    rw [← hsum]
    rfl
  -- the sign that the sum is given is its own, unless the sum is zero
  have hsigned : signed (if sum = 0 then s && t else decide (sum < 0)) sum.natAbs = sum := by
    by_cases hzero : sum = 0
    · rw [hzero]
      cases s <;> cases t <;> rfl
    · rw [if_neg hzero, signed_natAbs]
  rw [Format.natAbs_round] at h
  rw [hvalue]
  have hstands := standsAt_ofUnits (if sum = 0 then s && t else decide (sum < 0)) h
  rwa [Format.signed_nearest, hsigned] at hstands

/-- The magnitude of a difference is that of the positions. -/
theorem StandsAt.exists_sub_eq (hx : x.StandsAt i) (hy : y.StandsAt j) :
    ∃ negative, x - y = ofUnits F negative (i - j).natAbs 1 := by
  obtain ⟨s, u, hu, rfl, rfl⟩ := hx
  obtain ⟨t, v, hv, rfl, rfl⟩ := hy
  rw [Int.sub_eq_add_neg, ← signed_not]
  exact ⟨_, rfl⟩

/-- Values whose positions are equally far from each other have equal or opposite differences. -/
theorem StandsAt.sub_eq_or_eq_neg {x' y' : Floating F} {i' j' : Int} (hx : x.StandsAt i)
    (hy : y.StandsAt j) (hx' : x'.StandsAt i') (hy' : y'.StandsAt j')
    (h : (i' - j').natAbs = (i - j).natAbs) : x' - y' = x - y ∨ x' - y' = -(x - y) := by
  obtain ⟨s, hs⟩ := hx.exists_sub_eq hy
  obtain ⟨t, ht⟩ := hx'.exists_sub_eq hy'
  rw [hs, ht, h]
  exact ofUnits_eq_or_eq_neg t s _ 1

/-- **A product** with an integer `n` stands at `n` times the position, rounded. -/
theorem StandsAt.mul {n : Int} (hx : x.StandsAt (n * F.unit)) (hy : y.StandsAt j)
    (h : (F.round (n * j)).natAbs < F.bound) : (x * y).StandsAt (F.round (n * j)) := by
  obtain ⟨s, u, hu, rfl, hn⟩ := hx
  obtain ⟨t, v, hv, rfl, rfl⟩ := hy
  obtain rfl : u = n.natAbs * F.unit := by
    rw [← natAbs_signed s u, hn, Int.natAbs_mul, Int.natAbs_natCast]
  have hunit : (F.unit : Int) ≠ 0 := Int.natCast_ne_zero.2 (Nat.ne_of_gt F.unit_pos)
  rw [signed_mul] at hn
  have hround : signed (s != t) (F.nearest (n.natAbs * F.unit * v) F.unit) =
      F.round (n * signed t v) := by
    have hcancel := F.nearest_mul_right (n.natAbs * v) Nat.one_pos F.unit_pos
    rw [Nat.one_mul, Nat.mul_right_comm] at hcancel
    rw [hcancel, Format.signed_nearest, signed_bne_mul, Int.eq_of_mul_eq_mul_right hunit hn]
  rw [← hround, natAbs_signed] at h
  rw [← hround]
  exact standsAt_ofUnits _ h

/-- The integer part of a finite number is that of its position. -/
theorem StandsAt.truncate_eq (hx : x.StandsAt i) (lo hi : Int) :
    x.truncate lo hi = max lo (min hi (i.tdiv F.unit)) := by
  obtain ⟨s, u, hu, rfl, rfl⟩ := hx
  rw [truncate, signed_tdiv]

/-! ## Quotients of natural numbers -/

namespace Format

/-- The position of the quotient of two natural numbers, each of which is rounded first. -/
def ratio (F : Format) (e d : Nat) : Nat :=
  F.nearest (F.nearest (e * F.unit) 1 * F.unit) (F.nearest (d * F.unit) 1)

theorem nearest_mul_unit_pos {d : Nat} (hd : 0 < d) : 0 < F.nearest (d * F.unit) 1 :=
  F.nearest_pos Nat.one_pos (Nat.mul_pos hd F.unit_pos)

theorem nearest_mul_unit_mono {e d : Nat} (h : e ≤ d) :
    F.nearest (e * F.unit) 1 ≤ F.nearest (d * F.unit) 1 :=
  F.nearest_mono Nat.one_pos Nat.one_pos
    (Nat.mul_le_mul_right 1 (Nat.mul_le_mul_right F.unit h))

@[simp] theorem ratio_zero (d : Nat) : F.ratio 0 d = 0 := by
  rw [ratio, Nat.zero_mul, F.nearest_zero, Nat.zero_mul, F.nearest_zero]

/-- **A quotient grows with its numerator.** -/
theorem ratio_mono {e₁ e₂ d : Nat} (hd : 0 < d) (h : e₁ ≤ e₂) : F.ratio e₁ d ≤ F.ratio e₂ d := by
  have hpos := F.nearest_mul_unit_pos hd
  exact F.nearest_mono hpos hpos
    (Nat.mul_le_mul_right _ (Nat.mul_le_mul_right _ (F.nearest_mul_unit_mono h)))

/-- **A quotient of a smaller number by a greater one** is at most one.  It may be one although
the numbers differ. -/
theorem ratio_le_unit {e d : Nat} (hd : 0 < d) (h : e ≤ d) : F.ratio e d ≤ F.unit := by
  refine F.nearest_le (F.nearest_mul_unit_pos hd) F.holds_unit.2 ?_
  rw [Nat.mul_comm]
  exact Nat.mul_le_mul_left _ (F.nearest_mul_unit_mono h)

end Format

theorem standsAt_ratio {e d k : Nat} (hd : 0 < d) (he : e ≤ d) (hdk : d ≤ 2 ^ k)
    (hk : k < F.range) : (ofNat F e / ofNat F d).StandsAt (F.ratio e d) := by
  have hfinite {n : Nat} (hn : n ≤ 2 ^ k) : ofUnits F false (n * F.unit) 1 = _ :=
    ofUnits_of_lt (F.nearest_mul_unit_lt_bound hn hk)
  have hvalue : (ofNat F e / ofNat F d : Floating F) =
      ofUnits F false (F.nearest (e * F.unit) 1 * F.unit) (F.nearest (d * F.unit) 1) := by
    rw [ofNat, ofNat, ofRatio, ofRatio, hfinite hdk, hfinite (he.trans hdk)]
    exact if_neg (Nat.ne_of_gt (F.nearest_mul_unit_pos hd))
  rw [hvalue]
  exact standsAt_ofUnits false (Nat.lt_of_le_of_lt (F.ratio_le_unit hd he) F.unit_lt_bound)

end PointerMotion.Floating
