/-!
# Arithmetic that leaves the range of coordinates

Coordinates are bounded, so a sum, a difference or a negation of coordinates may have no
coordinate as its value.  Such an operation fails, and the failure says which operation it was:
the first one in the order of evaluation decides what a larger computation reports.
-/

namespace PointerMotion

/-- The operations on coordinates whose exact result may lie out of range. -/
inductive Overflow where
  | addition
  | subtraction
  | negation
  deriving DecidableEq, Repr

/-- The wording of a failure. -/
def Overflow.message : Overflow → String
  | .addition => "attempt to add with overflow"
  | .subtraction => "attempt to subtract with overflow"
  | .negation => "attempt to negate with overflow"

/-- A sequence of checked operations succeeds if each of them does. -/
theorem Overflow.bind_eq_ok_iff {α β : Type} {x : Except Overflow α} {f : α → Except Overflow β}
    {b : β} : x >>= f = .ok b ↔ ∃ a, x = .ok a ∧ f a = .ok b := by
  cases x with
  | error e => simp [bind, Except.bind]
  | ok a => simp [bind, Except.bind]

end PointerMotion
