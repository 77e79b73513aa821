import PointerMotion.Proofs.Factory.PinchEnds
import PointerMotion.Proofs.Factory.Scaling
import PointerMotion.Proofs.Gesture.Building

/-!
# Which gestures over an area of the screen are answered

The edges of an area of the screen are integers of half the width of a coordinate.  Its extents, the
sums of its edges and its margins are coordinates then, and a gesture over it can only fail for the
way that it takes.  This way is a percentage of an extent that was brought into the range of
coordinates, and at the ends of the range it may have no opposite, or lead to no coordinate.

How far such a way is from the ends of the range depends on the percentage alone.  In single
precision an extent of the screen is `2 ^ 32` at most, and the greatest value below `2 ^ 31` is
`2 ^ 31 - 2 ^ 7`.  So for a percentage within `2 ^ 31` there is a distance of `2 ^ 39`, which no
edge of the screen can use up (`Coord.natAbs_scaled_le`).  From `2 ^ 31` on there is none: over the
whole width of the screen the way becomes the first coordinate, which cannot be turned around
(`Coord.exists_scaled_eq_first`).
-/

namespace PointerMotion

open Floating

/-! ## Percentages within `2 ^ 31` -/

/-- A percentage that is neither `2 ^ 31` or more nor `-2 ^ 31` or less.  What is not a number is
neither. -/
def IsModerate (percent : Single) : Prop :=
  ¬ .ofNat .binary32 (2 ^ 31) ≤ percent ∧ ¬ percent ≤ -.ofNat .binary32 (2 ^ 31)

instance (percent : Single) : Decidable (IsModerate percent) := inferInstanceAs (Decidable (_ ∧ _))

theorem isModerate_nan : IsModerate .nan := by
  refine ⟨not_le_nan _, ?_⟩
  rintro ⟨_, h, _⟩
  cases h

theorem not_isModerate_infinite (t : Bool) : ¬ IsModerate (.infinite t) := by
  cases t <;> decide +kernel

/-- A finite percentage is moderate if its magnitude is less than `2 ^ 31`. -/
theorem isModerate_finite_iff {t : Bool} {v : Nat} (hv : Format.binary32.Holds v) :
    IsModerate (.finite t v hv) ↔ v < 2 ^ 31 * Format.binary32.unit := by
  have hposition := position_ofNat
    (Format.holds_two_pow_mul_unit (show 31 < Format.binary32.range by decide))
  have hopposite : (-ofNat .binary32 (2 ^ 31)).position =
      some (-((2 ^ 31 * Format.binary32.unit : Nat) : Int)) := by
    rw [position_neg, hposition]
    rfl
  have hlimit : 0 < 2 ^ 31 * Format.binary32.unit :=
    Nat.mul_pos (Nat.two_pow_pos 31) Format.binary32.unit_pos
  rw [IsModerate, le_iff_of_position hposition (position_finite t v hv),
    le_iff_of_position (position_finite t v hv) hopposite]
  generalize 2 ^ 31 * Format.binary32.unit = limit at hlimit ⊢
  cases t with
  | false => rw [signed_false]; omega
  | true => rw [signed_true]; omega

namespace Coord

variable {percent : Single}

/-- **A moderate percentage of an extent** of `2 ^ 32` at most stays away from the ends of the
range. -/
theorem natAbs_scaled_le {extent : Coord} (h : IsModerate percent)
    (hextent : extent.val.natAbs ≤ 2 ^ 32) :
    (extent.scaled percent).val.natAbs ≤ 2 ^ 63 - 2 ^ 39 := by
  cases percent with
  | nan =>
    rw [scaled, mul_nan]
    decide
  | infinite t => exact absurd h (not_isModerate_infinite t)
  | finite t v hv =>
    -- the next magnitude below `2 ^ 31` is `2 ^ 7` below it
    have hgap : v + 2 ^ 7 * Format.binary32.unit ≤ 2 ^ 31 * Format.binary32.unit :=
      add_two_pow_mul_unit_le hv ((isModerate_finite_iff hv).1 h)
    obtain ⟨u, hu, hsingle, hle⟩ :=
      exists_toFloating_eq_finite_of_le hextent (show 32 < Format.binary32.range by decide)
    have hlt : 2 ^ 32 * v < Format.binary32.bound := by
      refine Nat.lt_of_le_of_lt ?_
        (Format.two_pow_mul_unit_lt_bound (show 63 < Format.binary32.range by decide))
      omega
    obtain ⟨w, hw, hproduct, hmul⟩ := exists_mul_eq_finite_of_le_two_pow (t := t) hu hv hle hlt
    have hquotient : w / Format.binary32.unit ≤ 2 ^ 63 - 2 ^ 39 := by
      refine Nat.div_le_of_le_mul ?_
      omega
    have hval := natAbs_signed (decide (extent.val < 0) != t) (w / Format.binary32.unit)
    rw [scaled, val_ofFloating, toSingle, hsingle, hmul, truncate]
    omega

/-- **A percentage that is not moderate** takes an extent of `2 ^ 32` of the other sign to the
first coordinate. -/
theorem exists_scaled_eq_first (h : ¬ IsModerate percent) : ∃ t, ∀ extent : Coord,
    extent.toSingle = .ofUnits .binary32 (!t) (2 ^ 32 * Format.binary32.unit) 1 →
      (extent.scaled percent).val = -2 ^ 63 := by
  have hholds : Format.binary32.Holds (2 ^ 32 * Format.binary32.unit) :=
    Format.holds_two_pow_mul_unit (by decide)
  cases percent with
  | nan => exact absurd isModerate_nan h
  | infinite t =>
    refine ⟨t, fun extent hextent => ?_⟩
    have hne : 2 ^ 32 * Format.binary32.unit ≠ 0 :=
      Nat.ne_of_gt (Nat.mul_pos (Nat.two_pow_pos 32) Format.binary32.unit_pos)
    rw [scaled, val_ofFloating, hextent, ofUnits_of_holds _ hholds, finite_mul_infinite _ hne,
      Bool.not_bne_self]
    rfl
  | finite t v hv =>
    rw [isModerate_finite_iff, Nat.not_lt] at h
    refine ⟨t, fun extent hextent => ?_⟩
    have hlarge : 2 ^ 63 * Format.binary32.unit * Format.binary32.unit ≤
        2 ^ 32 * Format.binary32.unit * v :=
      calc 2 ^ 63 * Format.binary32.unit * Format.binary32.unit
          = 2 ^ 32 * Format.binary32.unit * (2 ^ 31 * Format.binary32.unit) := by ring
        _ ≤ 2 ^ 32 * Format.binary32.unit * v := Nat.mul_le_mul_left _ h
    rw [scaled, val_ofFloating, hextent, ofUnits_of_holds _ hholds, finite_mul_finite,
      Bool.not_bne_self]
    exact truncate_ofUnits_of_le Format.binary32.unit_pos hlarge (by decide)

end Coord

/-! ## Areas of the screen -/

namespace Rect

/-- The edges of an area are integers of half the width of a coordinate. -/
def IsScreenSized (area : Rect) : Prop :=
  ∀ d, -2 ^ 31 ≤ (area.edge d).val ∧ (area.edge d).val < 2 ^ 31

instance (area : Rect) : Decidable area.IsScreenSized :=
  decidable_of_iff (∀ d ∈ Direction.all, -2 ^ 31 ≤ (area.edge d).val ∧ (area.edge d).val < 2 ^ 31)
    ⟨fun h d => h d d.mem_all, fun h d _ => h d⟩

namespace IsScreenSized

variable {area : Rect} {percent : Single} (harea : area.IsScreenSized) (d : Direction)

include harea

theorem exists_extent_eq_ok :
    ∃ extent, area.extent d = .ok extent ∧ extent.val.natAbs < 2 ^ 32 := by
  have hahead := harea d
  have hbehind := harea d.opposite
  have hrange : Coord.InRange (d.sign * ((area.edge d).val - (area.edge d.opposite).val)) := by
    rcases d.sign_eq with hsign | hsign <;> rw [hsign] <;> constructor <;> omega
  obtain ⟨extent, -, hval⟩ := Coord.exists_checked_eq_ok .subtraction hrange
  refine ⟨extent, extent_eq_ok_iff.2 hval, ?_⟩
  rcases d.sign_eq with hsign | hsign <;> rw [hsign] at hval <;> omega

theorem natAbs_extent_lt {extent : Coord} (hextent : area.extent d = .ok extent) :
    extent.val.natAbs < 2 ^ 32 := by
  obtain ⟨extent', hextent', hsmall⟩ := harea.exists_extent_eq_ok d
  obtain rfl : extent' = extent := Except.ok.inj (hextent'.symm.trans hextent)
  exact hsmall

theorem inRange_crossSum : Coord.InRange (area.crossSum d) := by
  have hleft := harea .left
  have hright := harea .right
  have hup := harea .up
  have hdown := harea .down
  simp only [edge] at hleft hright hup hdown
  cases d <;> rw [crossSum] <;> constructor <;> omega

/-- A moderate way over an area of the screen can be taken. -/
theorem hasSwipe (h : IsModerate percent) : area.HasSwipe d percent := by
  obtain ⟨extent, hextent, hsmall⟩ := harea.exists_extent_eq_ok d
  have hway := Coord.natAbs_scaled_le h hsmall.le
  have hbehind := harea d.opposite
  refine ⟨extent, hextent, ?_⟩
  rcases d.sign_eq with hsign | hsign <;> rw [hsign] <;> constructor <;> constructor <;> omega

/-- Fingers that travel a moderate percentage stay away from the ends of the range. -/
theorem natAbs_pinchTravel_le (h : IsModerate percent) {extent travel : Coord}
    (hextent : area.extent d = .ok extent) (htravel : pinchTravel extent percent = .ok travel) :
    travel.val.natAbs ≤ 2 ^ 63 - 2 ^ 39 := by
  obtain ⟨rest, hval, rfl⟩ := pinchTravel_eq_ok_iff.1 htravel
  have hsmall := harea.natAbs_extent_lt d hextent
  refine Coord.natAbs_scaled_le h ?_
  rw [Coord.val_halfTowardZero, Int.natAbs_tdiv, hval]
  change (extent.val - 10).natAbs / 2 ≤ 2 ^ 32
  omega

/-- Fingers can travel a moderate percentage of an area of the screen. -/
theorem hasPinch (h : IsModerate percent) : area.HasPinch d percent := by
  obtain ⟨extent, hextent, hsmall⟩ := harea.exists_extent_eq_ok d
  have hrange : Coord.InRange (extent.val - 10) := by constructor <;> omega
  obtain ⟨rest, -, hval⟩ := Coord.exists_checked_eq_ok .subtraction hrange
  have htravel : pinchTravel extent percent = .ok (rest.halfTowardZero.scaled percent) :=
    pinchTravel_eq_ok_iff.2 ⟨rest, hval, rfl⟩
  have hshort := harea.natAbs_pinchTravel_le d h hextent htravel
  have hahead := harea d
  have hbehind := harea d.opposite
  refine ⟨extent, _, hextent, htravel, ?_⟩
  simp only [HasTravel, Coord.InRange]
  omega

end IsScreenSized

/-- The width of the screen, from the first column to the last, or the other way round. -/
def acrossScreen (forward : Bool) : Rect :=
  if forward then ⟨.clamp (-2 ^ 31), 0, .clamp (2 ^ 31 - 1), 0⟩
  else ⟨.clamp (2 ^ 31 - 1), 0, .clamp (-2 ^ 31), 0⟩

theorem isScreenSized_acrossScreen (forward : Bool) : (acrossScreen forward).IsScreenSized := by
  cases forward <;> decide

/-- As a value of single precision, the width of the screen is a power of two. -/
theorem exists_extent_acrossScreen (forward : Bool) : ∃ extent,
    (acrossScreen forward).extent .left = .ok extent ∧
      extent.toSingle = .ofUnits .binary32 (!forward) (2 ^ 32 * Format.binary32.unit) 1 := by
  cases forward with
  | false => exact ⟨.clamp (-2 ^ 32 + 1), by decide, by decide +kernel⟩
  | true => exact ⟨.clamp (2 ^ 32 - 1), by decide, by decide +kernel⟩

/-- For a percentage that is not moderate, there is an area of the screen with a way that cannot be
turned around. -/
theorem exists_not_hasSwipe {percent : Single} (h : ¬ IsModerate percent) :
    ∃ area : Rect, area.IsScreenSized ∧ ¬ area.HasSwipe .left percent := by
  obtain ⟨t, hfirst⟩ := Coord.exists_scaled_eq_first h
  refine ⟨acrossScreen t, isScreenSized_acrossScreen t, ?_⟩
  rintro ⟨extent, hextent, hway, -⟩
  obtain ⟨extent', hextent', hsingle⟩ := exists_extent_acrossScreen t
  obtain rfl : extent' = extent := Except.ok.inj (hextent'.symm.trans hextent)
  rw [hfirst extent' hsingle] at hway
  exact absurd hway (by decide)

end Rect

/-! ## Requests -/

theorem Overflow.exists_map_eq_ok_iff {α β : Type} {x : Except Overflow α} {g : α → β} :
    (∃ b, x.map g = .ok b) ↔ ∃ a, x = .ok a := by
  cases x with
  | error e => simp [Except.map]
  | ok a => simp [Except.map]

/-- What cannot fail does not decide whether there is an outcome. -/
theorem Traced.exists_outcome_bind_eq_ok_iff {α β : Type} {m : Traced α} {k : α → Traced β}
    (hk : ∀ a, ∃ b, (k a).outcome = .ok b) :
    (∃ b, (m >>= k).outcome = .ok b) ↔ ∃ a, m.outcome = .ok a := by
  rw [Traced.outcome_bind]
  cases m.outcome with
  | error e => simp [Except.bind]
  | ok a => simpa [Except.bind] using hk a

namespace Factory

/-- The area and the percentage of a request that has them. -/
def Request.over? : Request → Option (Rect × Single)
  | .click _ | .clickFor .. | .longClick _ | .swipe .. | .drag .. => none
  | .swipeOver area _ percent _ | .pinchClose area percent _ | .pinchOpen area percent _ =>
    some (area, percent)

/-- A request for a gesture over an area of the screen, with the given percentage. -/
def Request.IsOverScreen (request : Request) (percent : Single) : Prop :=
  ∃ area, request.over? = some (area, percent) ∧ area.IsScreenSized

/-- The ways that the answer to a request takes can be taken. -/
def Request.HasWays : Request → Prop
  | .click _ | .clickFor .. | .longClick _ | .swipe .. | .drag .. => True
  | .swipeOver area direction percent _ => area.HasSwipe direction percent
  | .pinchClose area percent _ | .pinchOpen area percent _ =>
    area.HasPinch .right percent ∧ area.HasPinch .down percent

variable (f : Factory) {request : Request} {percent : Single}

/-- **When a gesture over an area of the screen is answered.** -/
theorem exists_perform_eq_ok_iff (h : request.IsOverScreen percent) :
    (∃ gestures, (f.perform request).outcome = .ok gestures) ↔ request.HasWays := by
  obtain ⟨area, hover, harea⟩ := h
  cases request with
  | click | clickFor | longClick | swipe | drag => cases hover
  | swipeOver area direction percent speed =>
    cases hover
    rw [perform, Traced.exists_outcome_bind_eq_ok_iff fun g => ⟨[g], rfl⟩, swipeOver_outcome,
      Overflow.exists_map_eq_ok_iff, Rect.exists_swipeEnds_eq_ok_iff, Request.HasWays]
    exact and_iff_right (harea.inRange_crossSum direction)
  | pinchClose area percent speed =>
    cases hover
    rw [perform, Traced.exists_outcome_bind_eq_ok_iff fun g => ⟨[g.1, g.2], rfl⟩,
      pinchClose_outcome, Overflow.exists_map_eq_ok_iff, PinchPath.exists_over_eq_ok_iff,
      Request.HasWays]
  | pinchOpen area percent speed =>
    cases hover
    rw [perform, Traced.exists_outcome_bind_eq_ok_iff fun g => ⟨[g.1, g.2], rfl⟩,
      pinchOpen_outcome, Overflow.exists_map_eq_ok_iff, PinchPath.exists_over_eq_ok_iff,
      Request.HasWays]

/-- A moderate percentage of an area of the screen leaves every request its ways. -/
theorem hasWays_of_isModerate (h : request.IsOverScreen percent) (hmoderate : IsModerate percent) :
    request.HasWays := by
  obtain ⟨area, hover, harea⟩ := h
  cases request with
  | click | clickFor | longClick | swipe | drag => cases hover
  | swipeOver area direction percent speed =>
    cases hover
    exact harea.hasSwipe direction hmoderate
  | pinchClose area percent speed | pinchOpen area percent speed =>
    cases hover
    exact ⟨harea.hasPinch .right hmoderate, harea.hasPinch .down hmoderate⟩

/-- **Which gestures over an area of the screen are answered.**  Each one whose ways can be taken,
and no other.  For a moderate percentage these are all of them, over every such area; for any other
percentage they are not. -/
theorem exists_answer_over_screen_iff (percent : Single) :
    (∀ (f : Factory) (request : Request), request.IsOverScreen percent →
      ((∃ gestures, (f.perform request).outcome = .ok gestures) ↔ request.HasWays)) ∧
    (IsModerate percent ↔ ∀ (f : Factory) (request : Request), request.IsOverScreen percent →
      ∃ gestures, (f.perform request).outcome = .ok gestures) := by
  refine ⟨fun f request h => f.exists_perform_eq_ok_iff h, ?_, ?_⟩
  · intro hmoderate f request h
    exact (f.exists_perform_eq_ok_iff h).2 (hasWays_of_isModerate h hmoderate)
  · intro hall
    by_contra hnot
    obtain ⟨area, harea, hways⟩ := Rect.exists_not_hasSwipe hnot
    have hover : (Request.swipeOver area .left percent 0).IsOverScreen percent :=
      ⟨area, rfl, harea⟩
    exact hways ((exists_perform_eq_ok_iff {} hover).1 (hall {} _ hover))

/-- A swipe to the left, backward over an area of the screen, that would end at the last coordinate:
its way back is the first one, which cannot be turned around. -/
theorem swipeOver_not_answered :
    let area : Rect := ⟨.clamp (-65), 0, .clamp (-1), 0⟩
    let percent : Single := .ofWord .binary32 0xdc000000
    area.IsScreenSized ∧ percent = -.ofNat .binary32 (2 ^ 57) ∧
      area.width = .ok 64 ∧ Coord.InRange (area.right.val + 64 * 2 ^ 57) ∧
        (perform {} (.swipeOver area .left percent 1000)).outcome = .error .negation := by
  decide +kernel

end Factory
end PointerMotion
