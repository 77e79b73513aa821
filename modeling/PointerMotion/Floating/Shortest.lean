import PointerMotion.Floating.Value

/-!
# The shortest decimal text of a floating-point value

A value is written with the fewest decimal digits that are rounded back to it.  All of it
happens on one grid: a format's least positive value is `2^-scale`, which is a multiple of
`10^-scale`, so every finite magnitude is a natural number of units `10^-scale` (`decimals`), and
a decimal with fewer digits is a multiple of a power of ten on the same grid.

`shortest` goes from the coarsest power of ten, the one of the leading digit, to the finer ones.
On each it looks at the two multiples around the value and stops at the first power where one of
them is rounded back; of two it takes the nearer one, and the greater if both are equally near.
The last power is one, where the value itself is found, so the search needs no limit of its own.

The text is positional, without an exponent: a whole part, and a fraction part only if it is not
zero.
-/

namespace PointerMotion.Floating

/-- How many units of `10^-scale` the least positive value has. -/
def Format.decimalsOfUnit (F : Format) : Nat := Nat.pow 5 F.scale

/-- The magnitude `u` in units of `10^-scale`. -/
def decimals (F : Format) (u : Nat) : Nat := u * F.decimalsOfUnit

/-- The decimal number is rounded to the magnitude `u`. -/
def ReadsBack (F : Format) (u decimal : Nat) : Prop := F.nearest decimal F.decimalsOfUnit = u

instance (F : Format) (u decimal : Nat) : Decidable (ReadsBack F u decimal) :=
  inferInstanceAs (Decidable (_ = _))

/-- The multiple of `10^k` chosen for the magnitude `u`, if one is rounded back to it. -/
def onGrid? (F : Format) (u k : Nat) : Option Nat :=
  let below := decimals F u / Nat.pow 10 k * Nat.pow 10 k
  let above := below + Nat.pow 10 k
  if ReadsBack F u below ∧
      (ReadsBack F u above → decimals F u - below < above - decimals F u) then
    some below
  else if ReadsBack F u above then
    some above
  else
    none

/-- The decimal on the coarsest grid, of those from `10^k` downward, that has one. -/
def shortestFrom (F : Format) (u : Nat) : Nat → Nat
  | 0 => decimals F u
  | k + 1 => (onGrid? F u (k + 1)).getD (shortestFrom F u k)

/-- The decimal with the fewest digits that is rounded to the magnitude `u`. -/
def shortest (F : Format) (u : Nat) : Nat :=
  shortestFrom F u ((Nat.toDigits 10 (decimals F u)).length - 1)

/-- The digits of a fraction part of `width` places, without the zeros at its end. -/
def fractionDigits (width : Nat) (part : Nat) : List Char :=
  let digits := Nat.toDigits 10 part
  let padded := List.replicate (width - digits.length) '0' ++ digits
  (padded.reverse.dropWhile (· == '0')).reverse

/-- The positional text of a number of units of `10^-width`. -/
def positional (width : Nat) (decimal : Nat) : List Char :=
  let whole := Nat.toDigits 10 (decimal / Nat.pow 10 width)
  let part := decimal % Nat.pow 10 width
  if part = 0 then whole else whole ++ '.' :: fractionDigits width part

variable {F : Format}

/-- The shortest text of a value. -/
def text : Floating F → String
  | .nan => "NaN"
  | .infinite negative => if negative then "-inf" else "inf"
  | .finite negative u _ =>
    let magnitude := String.ofList (positional F.scale (shortest F u))
    if negative then "-" ++ magnitude else magnitude

end PointerMotion.Floating
