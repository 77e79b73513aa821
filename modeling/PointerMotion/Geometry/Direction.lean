/-!
# Directions

The four directions of a swipe.  Up is toward smaller `y`.
-/

namespace PointerMotion

/-- A direction along one axis of the screen. -/
inductive Direction where
  | left
  | right
  | up
  | down
  deriving DecidableEq, Repr

namespace Direction

/-- Every direction once, in the order in which they are listed wherever all are shown. -/
def all : List Direction := [.left, .right, .up, .down]

theorem mem_all (d : Direction) : d ∈ all := by
  cases d <;> decide

/-- The name of a direction, in messages and in documents alike. -/
def name : Direction → String
  | .left => "left"
  | .right => "right"
  | .up => "up"
  | .down => "down"

/-- The direction of a name. -/
def ofName? (s : String) : Option Direction := all.find? (·.name == s)

@[simp] theorem ofName?_name (d : Direction) : ofName? d.name = some d := by
  cases d <;> decide

end Direction
end PointerMotion
