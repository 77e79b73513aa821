import PointerMotion.Floating.SquareRoot
import PointerMotion.Floating.Value

/-!
# Floating-point arithmetic

Each operation takes the exact result for its finite operands, as a quotient of natural numbers
in units of the format, and rounds it once.  Sums and differences of units are exact integers;
a product of units is divided by the unit, a quotient of units multiplied by it.

A square root has no exact quotient.  Rounding only needs to know between which two halves of a
unit it lies, because no magnitude and no middle of two magnitudes is finer than that: so
`hypot` rounds the half itself when the root is one, and the middle of the two halves around the
root when it is not.
-/

namespace PointerMotion.Floating

variable {F : Format}

/-- The value with the opposite sign. -/
def neg : Floating F → Floating F
  | .nan => .nan
  | .infinite negative => .infinite !negative
  | .finite negative u h => .finite (!negative) u h

/-- The sum.  An exact zero is negative only if both operands are. -/
def add : Floating F → Floating F → Floating F
  | .nan, _ => .nan
  | _, .nan => .nan
  | .infinite s, .infinite t => if s = t then .infinite s else .nan
  | .infinite s, .finite .. => .infinite s
  | .finite .., .infinite t => .infinite t
  | .finite s u _, .finite t v _ =>
    let sum := signed s u + signed t v
    ofUnits F (if sum = 0 then s && t else decide (sum < 0)) sum.natAbs 1

/-- The difference. -/
def sub (x y : Floating F) : Floating F := x.add y.neg

/-- The product. -/
def mul : Floating F → Floating F → Floating F
  | .nan, _ => .nan
  | _, .nan => .nan
  | .infinite s, .infinite t => .infinite (s != t)
  | .infinite s, .finite t v _ => if v = 0 then .nan else .infinite (s != t)
  | .finite s u _, .infinite t => if u = 0 then .nan else .infinite (s != t)
  | .finite s u _, .finite t v _ => ofUnits F (s != t) (u * v) F.unit

/-- The quotient. -/
def div : Floating F → Floating F → Floating F
  | .nan, _ => .nan
  | _, .nan => .nan
  | .infinite _, .infinite _ => .nan
  | .infinite s, .finite t _ _ => .infinite (s != t)
  | .finite s _ _, .infinite t => .finite (s != t) 0 F.holds_zero
  | .finite s u _, .finite t v _ =>
    if v = 0 then
      if u = 0 then .nan else .infinite (s != t)
    else
      ofUnits F (s != t) (u * F.unit) v

/-- The square root of `n` square units, rounded once. -/
def ofSquare (F : Format) (n : Nat) : Floating F :=
  let halves := squareRoot (4 * n)
  ofUnits F false (if halves * halves = 4 * n then 2 * halves else 2 * halves + 1) 4

/-- The length of the hypotenuse over two legs, which is infinite as soon as one leg is. -/
def hypot : Floating F → Floating F → Floating F
  | .infinite _, _ => .infinite false
  | _, .infinite _ => .infinite false
  | .nan, _ => .nan
  | _, .nan => .nan
  | .finite _ u _, .finite _ v _ => ofSquare F (u * u + v * v)

instance : Neg (Floating F) := ⟨neg⟩
instance : Add (Floating F) := ⟨add⟩
instance : Sub (Floating F) := ⟨sub⟩
instance : Mul (Floating F) := ⟨mul⟩
instance : Div (Floating F) := ⟨div⟩

/-- The two legs may change places. -/
theorem hypot_comm (x y : Floating F) : hypot x y = hypot y x := by
  cases x <;> cases y <;> simp only [hypot, Nat.add_comm]

/-- The signs of the legs do not matter. -/
@[simp] theorem hypot_neg_left (x y : Floating F) : hypot (-x) y = hypot x y := by
  cases x <;> cases y <;> rfl

@[simp] theorem hypot_neg_right (x y : Floating F) : hypot x (-y) = hypot x y := by
  rw [hypot_comm, hypot_neg_left, hypot_comm]

end PointerMotion.Floating
