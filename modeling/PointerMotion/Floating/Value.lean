import PointerMotion.Floating.Format

/-!
# Floating-point values

A value of a format is a signed magnitude, one of two infinities, or not a number.  There is one
value that is not a number: no operation on values can tell two of them apart.  A finite value
carries the proof that its magnitude belongs to the format, so *every number of the format and
nothing else* is a `Floating F`.

Zero has two signs.  They are different values, and the comparison `Floating.le` does not
distinguish them.
-/

namespace PointerMotion

open Floating (Format)

/-- The values of a format.  A finite value is `units` times the least positive one. -/
inductive Floating (F : Format) where
  | nan
  | infinite (negative : Bool)
  | finite (negative : Bool) (units : Nat) (holds : F.Holds units)
  deriving DecidableEq

/-- Values with 24-bit significands. -/
abbrev Single := Floating .binary32

/-- Values with 53-bit significands. -/
abbrev Double := Floating .binary64

/-- The integer with the given sign and magnitude. -/
def signed (negative : Bool) (u : Nat) : Int := if negative then -(u : Int) else u

@[simp] theorem signed_false (u : Nat) : signed false u = u := rfl

@[simp] theorem signed_true (u : Nat) : signed true u = -(u : Int) := rfl

@[simp] theorem signed_natAbs (i : Int) : signed (decide (i < 0)) i.natAbs = i := by
  unfold signed
  split <;> rename_i h <;> simp at h <;> omega

@[simp] theorem natAbs_signed (negative : Bool) (u : Nat) : (signed negative u).natAbs = u := by
  cases negative <;> simp

namespace Floating

variable {F : Format}

/-- Zero without a sign. -/
def zero : Floating F := .finite false 0 F.holds_zero

instance : Inhabited (Floating F) := ⟨zero⟩

/-- The value nearest to `num / den` units, which is infinite from the end of the range on. -/
def ofUnits (F : Format) (negative : Bool) (num den : Nat) : Floating F :=
  if h : F.nearest num den < F.bound then
    .finite negative (F.nearest num den) ⟨h, F.spacing_dvd_nearest num den⟩
  else
    .infinite negative

/-- A magnitude of the format is taken as it is. -/
theorem ofUnits_of_holds (negative : Bool) {u : Nat} (h : F.Holds u) :
    ofUnits F negative u 1 = .finite negative u h := by
  simp [ofUnits, Format.nearest_of_dvd h.2, h.1]

/-- The value nearest to an integer. -/
def ofInt (F : Format) (i : Int) : Floating F :=
  ofUnits F (decide (i < 0)) (i.natAbs * F.unit) 1

/-- The value nearest to a quotient. -/
def ofRatio (F : Format) (num den : Nat) : Floating F := ofUnits F false (num * F.unit) den

/-- The value nearest to a natural number. -/
def ofNat (F : Format) (n : Nat) : Floating F := ofRatio F n 1

/-- Where a value stands on the line of units; the infinities stand at the ends of the range. -/
def position : Floating F → Option Int
  | .nan => none
  | .infinite negative => some (signed negative F.bound)
  | .finite negative u _ => some (signed negative u)

/-- The order of values, in which the two zeros are equal and nothing compares with a value that
is not a number. -/
def le (x y : Floating F) : Prop := ∃ i ∈ x.position, ∃ j ∈ y.position, i ≤ j

instance : LE (Floating F) := ⟨le⟩

instance (x y : Floating F) : Decidable (x ≤ y) :=
  match hx : x.position, hy : y.position with
  | some i, some j =>
    if h : i ≤ j then .isTrue ⟨i, hx, j, hy, h⟩
    else .isFalse fun ⟨i', hi, j', hj, hij⟩ => by
      rw [hx] at hi
      rw [hy] at hj
      cases hi
      cases hj
      exact h hij
  | none, _ => .isFalse fun ⟨i', hi, _⟩ => by rw [hx] at hi; cases hi
  | some _, none => .isFalse fun ⟨_, _, j', hj, _⟩ => by rw [hy] at hj; cases hj

theorem le_iff {x y : Floating F} : x ≤ y ↔ ∃ i ∈ x.position, ∃ j ∈ y.position, i ≤ j := Iff.rfl

/-- A zero of either sign. -/
def IsZero (x : Floating F) : Prop := x.position = some 0

instance (x : Floating F) : Decidable x.IsZero := inferInstanceAs (Decidable (_ = _))

/-- The integer part, brought into `lo ≤ i ≤ hi`; a value that is not a number counts as zero. -/
def truncate (lo hi : Int) : Floating F → Int
  | .nan => 0
  | .infinite negative => if negative then lo else hi
  | .finite negative u _ => max lo (min hi (signed negative (u / F.unit)))

theorem truncate_mem {lo hi : Int} (hlo : lo ≤ 0) (hhi : 0 ≤ hi) (x : Floating F) :
    lo ≤ x.truncate lo hi ∧ x.truncate lo hi ≤ hi := by
  cases x with
  | nan => exact ⟨hlo, hhi⟩
  | infinite negative => cases negative <;> simp only [truncate] <;> grind
  | finite negative u h => simp only [truncate]; omega

end Floating
end PointerMotion
