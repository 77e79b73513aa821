import PointerMotion.Floating.Value

/-!
# The interchange words of floating-point values

A word of a format holds, from its highest bit on, a sign, an exponent field and the significand
without its leading bit.  The greatest exponent field marks the infinities and the words that are
not numbers; the least one marks the magnitudes that have no leading bit.

Writing needs no case for the latter.  With `s` the step of the magnitude `u` and `m` the
number of spacings in it, the two lower fields of its word together are `s * 2^(p - 1) + m`: where
`m` has its leading bit, that bit is carried into the exponent field and raises it by one.
-/

namespace PointerMotion.Floating

variable {F : Format}

/-- How many fractions a word tells apart: those of all bits of a significand but the first. -/
def Format.fractions (F : Format) : Nat := Nat.pow 2 (F.precision - 1)

/-- How many exponent fields there are. -/
def Format.fields (F : Format) : Nat := Nat.pow 2 F.exponentWidth

/-- The value of a word. -/
def ofWord (F : Format) (word : Nat) : Floating F :=
  let fraction := word % F.fractions
  let field := word / F.fractions % F.fields
  let negative := word / (F.fractions * F.fields) % 2 == 1
  if field + 1 = F.fields then
    if fraction = 0 then .infinite negative else .nan
  else if field = 0 then
    ofUnits F negative fraction 1
  else
    ofUnits F negative ((F.fractions + fraction) * Nat.pow 2 (field - 1)) 1

/-- A word without its sign bit, under that bit. -/
def Format.withSign (F : Format) (negative : Bool) (word : Nat) : Nat :=
  if negative then F.fractions * F.fields + word else word

/-- The word of a value. -/
def toWord : Floating F → Nat
  | .nan => (F.fields - 1) * F.fractions + F.fractions / 2
  | .infinite negative => F.withSign negative ((F.fields - 1) * F.fractions)
  | .finite negative u _ => F.withSign negative (F.step u * F.fractions + u / F.spacing u)

end PointerMotion.Floating
