import PointerMotion.Floating.Arithmetic
import PointerMotion.Json.Reader

/-!
# Reading numbers

A number has a whole part without superfluous zeros, and may have a fraction part and an
exponent; each of the three needs a digit.  It is an integer if it has a whole part only and is
in range, and negative zero is not.

The digits of the whole and fraction parts are kept in a significand below `2^64`.  Digits that no
longer fit are dropped, one at a time: one of the whole part still counts as a factor of ten, one
of the fraction part counts as nothing.  A number whose significand times its power of ten is
infinite in double precision is no number at all.
-/

namespace PointerMotion.Json.Reader

/-- Take digits, at least one. -/
def digits : Reader (List Char) := fun text =>
  match text.span Char.isDigit with
  | ([], []) => .error .truncated
  | ([], _ :: _) => .error .malformed
  | (ds, rest) => .ok (ds, rest)

/-- Take the digits of a whole part, where only zero begins with a zero. -/
def wholePart : Reader (List Char) := do
  match ← digits with
  | '0' :: _ :: _ => throw .malformed
  | ds => return ds

/-- Take the digits of a fraction part, if there is one. -/
def fractionPart : Reader (Option (List Char)) := do
  match ← take? (· == '.') with
  | some _ => return some (← digits)
  | none => return none

/-- The number with the given decimal digits. -/
def digitsValue (ds : List Char) : Nat := ds.foldl (fun n d => 10 * n + (d.toNat - '0'.toNat)) 0

/-- Take an exponent, if there is one. -/
def exponentPart : Reader (Option Int) := do
  match ← take? (fun c => c == 'e' || c == 'E') with
  | some _ =>
    let sign ← take? (fun c => c == '+' || c == '-')
    return some (signed (sign == some '-') (digitsValue (← digits)))
  | none => return none

/-- Significands and integers without a sign are below `2^64`. -/
def wordLimit : Nat := 18446744073709551616

/-- The significand with more digits, and how many of them no longer fit. -/
def extend (significand : Nat) : List Char → Nat × Nat
  | [] => (significand, 0)
  | d :: rest =>
    let extended := 10 * significand + (d.toNat - '0'.toNat)
    if extended < wordLimit then extend extended rest else (significand, rest.length + 1)

/-- The significand times the power of ten is infinite, if each of the two is rounded to double
precision first. -/
def isTooLarge (significand : Nat) (exponent : Int) : Bool :=
  if significand = 0 ∨ exponent < 0 then
    false
  else if 308 < exponent then
    true
  else
    let power : Double := .ofNat .binary64 (Nat.pow 10 exponent.toNat)
    .ofNat .binary64 significand * power == .infinite false

/-- The decimal, if it is in range. -/
def decimal (negative : Bool) (significand : Nat) (exponent : Int) : Reader Number :=
  if isTooLarge significand exponent then throw .malformed
  else return .decimal negative significand exponent

/-- The number is an integer of 64 bits, without a sign, or with one if it is not zero. -/
def IsInteger (negative : Bool) (n : Nat) : Prop :=
  if negative then 0 < n ∧ 2 * n ≤ wordLimit else n < wordLimit

instance (negative : Bool) (n : Nat) : Decidable (IsInteger negative n) :=
  inferInstanceAs (Decidable (if negative then _ else _))

/-- The parts a number is written in. -/
structure Parts where
  negative : Bool
  whole : List Char
  fraction : Option (List Char)
  exponent : Option Int

/-- Take the parts of a number. -/
def parts : Reader Parts := do
  let negative := (← take? (· == '-')).isSome
  return ⟨negative, ← wholePart, ← fractionPart, ← exponentPart⟩

/-- The number written in parts. -/
def ofParts (p : Parts) : Reader Number :=
  let (whole, dropped) := extend 0 p.whole
  match p.fraction, p.exponent with
  | none, none =>
    if dropped = 0 ∧ IsInteger p.negative whole then
      return .integer (signed p.negative whole)
    else
      decimal p.negative whole dropped
  | fraction, exponent =>
    let places := fraction.getD []
    let (significand, ignored) := extend whole places
    decimal p.negative significand
      (exponent.getD 0 + dropped - ((places.length - ignored : Nat) : Int))

/-- Take a number. -/
def number : Reader Number := do ofParts (← parts)

end PointerMotion.Json.Reader
