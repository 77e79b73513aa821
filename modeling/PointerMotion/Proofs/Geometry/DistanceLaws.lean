import PointerMotion.Proofs.Geometry.Isometry
import PointerMotion.Proofs.Geometry.Separation

/-!
# The laws of distances

A distance is the root of a whole number of square units, rounded once.  The gaps between
coordinates are at most `2 ^ 64`, so the root is within `2 ^ 65` and no distance leaves the range:
over all coordinates, distances are finite numbers, and none of them is negative
(`Point.exists_distance_eq`).

Distances are symmetric, and tell two points apart exactly if double precision does.  They do not
tell apart all points, because far from the origin several coordinates become the same number; what
becomes the same number is told by `Coord.toDouble_eq_iff`.  On a line along an axis the distance is
the gap between two coordinates, and within `2 ^ 52` it is exact.
-/

namespace PointerMotion

open Floating (Format)

namespace Floating

variable {F : Format} {i j : Int}

/-- A value stands at one position. -/
theorem StandsAt.unique {x : Floating F} (hi : x.StandsAt i) (hj : x.StandsAt j) : i = j := by
  obtain ⟨s, u, hu, rfl, rfl⟩ := hi
  obtain ⟨t, v, hv, heq, rfl⟩ := hj
  cases heq
  rfl

/-- Rounding does not turn an integer into one of another sign. -/
theorem Format.nearestInt_lt_zero_iff : F.nearestInt i < 0 ↔ i < 0 := by
  unfold nearestInt
  by_cases hi : i < 0
  · have hpos : 0 < F.nearest (i.natAbs * F.unit) 1 := nearest_mul_unit_pos (by omega)
    rw [decide_eq_true hi, signed_true]
    omega
  · rw [decide_eq_false hi, signed_false]
    omega

/-- Integers that are rounded to the same position become the same value. -/
theorem ofInt_eq_of_nearestInt_eq (h : F.nearestInt i = F.nearestInt j) :
    ofInt F i = ofInt F j := by
  have hsign : decide (i < 0) = decide (j < 0) :=
    decide_eq_decide.2 (by rw [← F.nearestInt_lt_zero_iff, h, F.nearestInt_lt_zero_iff])
  have hnearest := congrArg Int.natAbs h
  rw [Format.nearestInt, Format.nearestInt, natAbs_signed, natAbs_signed] at hnearest
  simp only [ofInt, ofUnits, hsign, hnearest]

/-- A zero without a sign is the one that is called so. -/
theorem finite_eq_zero_iff {u : Nat} {hu : F.Holds u} :
    (finite false u hu : Floating F) = zero ↔ (finite false u hu : Floating F).IsZero := by
  constructor
  · intro h
    rw [h]
    rfl
  · intro h
    obtain ⟨t, hzero⟩ := h.exists_eq_finite
    cases hzero
    rfl

end Floating

/-- **Which coordinates become the same number.** -/
theorem Coord.toDouble_eq_iff {a b : Coord} : a.toDouble = b.toDouble ↔
    Format.binary64.nearestInt a.val = Format.binary64.nearestInt b.val := by
  constructor
  · intro h
    exact (h ▸ a.standsAt_toDouble).unique b.standsAt_toDouble
  · exact Floating.ofInt_eq_of_nearestInt_eq

namespace Point

variable {p q : Point}

/-- **Distances are finite and not negative**, and stand at the rounded root. -/
theorem exists_distance_eq {u : Nat}
    (hroot : Format.binary64.root
      (p.x.gap q.x * p.x.gap q.x + p.y.gap q.y * p.y.gap q.y) = u) :
    ∃ hu, p.distance q = .finite false u hu := by
  have hx := Nat.mul_self_le_mul_self (p.x.gap_le q.x)
  have hy := Nat.mul_self_le_mul_self (p.y.gap_le q.y)
  have hle : u ≤ 2 ^ 65 * Format.binary64.unit := by
    rw [← hroot]
    refine Format.root_le (Format.spacing_dvd_two_pow_mul_unit 65) ?_
    calc p.x.gap q.x * p.x.gap q.x + p.y.gap q.y * p.y.gap q.y
        ≤ 2 ^ 64 * Format.binary64.unit * (2 ^ 64 * Format.binary64.unit) +
          2 ^ 64 * Format.binary64.unit * (2 ^ 64 * Format.binary64.unit) := Nat.add_le_add hx hy
      _ ≤ 2 ^ 65 * Format.binary64.unit * (2 ^ 65 * Format.binary64.unit) := by
        generalize Format.binary64.unit = unit
        have hsquares : 2 ^ 65 * unit * (2 ^ 65 * unit) =
            4 * (2 ^ 64 * unit * (2 ^ 64 * unit)) := by ring
        omega
  have hbound := Nat.lt_of_le_of_lt hle
    (Format.two_pow_mul_unit_lt_bound (show 65 < Format.binary64.range by decide))
  subst hroot
  exact ⟨_, (distance_eq_ofSquare p q).trans (Floating.ofUnits_of_lt hbound)⟩

/-- Being zero is being the one zero that is not negative. -/
theorem distance_eq_zero_iff : p.distance q = .zero ↔ (p.distance q).IsZero := by
  obtain ⟨hu, hvalue⟩ := @exists_distance_eq p q _ rfl
  rw [hvalue]
  exact Floating.finite_eq_zero_iff

/-- The gaps along and across a direction are the two gaps. -/
theorem sum_gaps_eq (p q : Point) (d : Direction) :
    p.x.gap q.x * p.x.gap q.x + p.y.gap q.y * p.y.gap q.y =
      (p.along d).gap (q.along d) * (p.along d).gap (q.along d) +
        (p.across d).gap (q.across d) * (p.across d).gap (q.across d) := by
  cases d with
  | left | right => rfl
  | up | down => exact Nat.add_comm _ _

/-- **Along an axis, distances are exact** within `2 ^ 52`. -/
theorem distance_of_across_eq {d : Direction} (hp : p.IsNear (2 ^ 52)) (hq : q.IsNear (2 ^ 52))
    (hacross : p.across d = q.across d) : ∃ hu, p.distance q =
      .finite false (((q.along d).val - (p.along d).val).natAbs * Format.binary64.unit) hu := by
  have hpalong := hp.along d
  have hqalong := hq.along d
  have hway : ((q.along d).val - (p.along d).val).natAbs ≤ 2 ^ 53 := by omega
  have hlevel : (p.across d).gap (q.across d) = 0 := Coord.gap_eq_zero_iff.2 (by rw [hacross])
  refine exists_distance_eq ?_
  rw [sum_gaps_eq p q d, hlevel, Nat.mul_zero, Nat.add_zero,
    Coord.gap_eq (hpalong.trans (by decide)) (hqalong.trans (by decide)) hway]
  exact Format.root_mul_self (Format.spacing_dvd_mul_unit hway)

/-- **The laws of distances.**  Over all coordinates, the distance of two points is a finite number
that is not negative.  It

* is the same in both senses;
* is zero exactly if the coordinates on both axes become the same numbers of double precision, and
  for points within `2 ^ 53` exactly if the points are equal;
* stays the same when the axes are exchanged;
* is exactly the difference of the coordinates along an axis, up to its sign, for points within
  `2 ^ 52` whose other coordinates are equal. -/
theorem distance_separates (p q : Point) :
    (∃ u hu, p.distance q = .finite false u hu) ∧
    q.distance p = p.distance q ∧
    (p.distance q = .zero ↔ p.x.toDouble = q.x.toDouble ∧ p.y.toDouble = q.y.toDouble) ∧
    (p.IsNear (2 ^ 53) → q.IsNear (2 ^ 53) → (p.distance q = .zero ↔ p = q)) ∧
    p.transpose.distance q.transpose = p.distance q ∧
    (p.IsNear (2 ^ 52) → q.IsNear (2 ^ 52) → ∀ d, p.across d = q.across d →
      ∃ hu, p.distance q =
        .finite false (((q.along d).val - (p.along d).val).natAbs * Format.binary64.unit) hu) := by
  refine ⟨⟨_, exists_distance_eq rfl⟩, q.distance_comm p, ?_, fun hp hq => ?_,
    p.distance_transpose q, fun hp hq d hacross => distance_of_across_eq hp hq hacross⟩
  · rw [distance_eq_zero_iff, isZero_distance_iff, Coord.toDouble_eq_iff, Coord.toDouble_eq_iff]
  · rw [distance_eq_zero_iff, isZero_distance_iff_eq hp hq]

/-- The bound `2 ^ 53` cannot be greater: one pixel further, another point is at distance zero. -/
theorem distance_separates_limit :
    let p : Point := ⟨9007199254740992, 0⟩
    let q : Point := ⟨9007199254740993, 0⟩
    p.IsNear (2 ^ 53) ∧ q.IsNear (2 ^ 53 + 1) ∧ p ≠ q ∧ p.distance q = .zero ∧
      q.distance p = .zero := by
  intro p q
  obtain ⟨-, hsymm, hzero, -⟩ := distance_separates p q
  have hsame : p.distance q = .zero := hzero.2 ⟨by decide +kernel, rfl⟩
  exact ⟨by decide, by decide, by decide, hsame, hsymm.trans hsame⟩

end Point
end PointerMotion
