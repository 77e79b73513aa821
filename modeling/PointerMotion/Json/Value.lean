/-!
# JSON values

The values a document is made of.  Objects keep their members in the order in which they stand,
and may have two of the same key: what a repeated key means is for the reader of a document to
say, not for the value.

Numbers are of two kinds.  Those written as integers, within the range of 64 bits with or without
a sign, are integers; every other number is a decimal, `significand * 10 ^ exponent`, and never
counts as an integer, whatever its value.
-/

namespace PointerMotion

/-- A number in a document. -/
inductive Json.Number where
  | integer (n : Int)
  | decimal (negative : Bool) (significand : Nat) (exponent : Int)
  deriving DecidableEq, Repr

/-- A JSON value. -/
inductive Json where
  | null
  | bool (b : Bool)
  | number (n : Json.Number)
  | string (s : String)
  | array (items : List Json)
  | object (members : List (String × Json))

namespace Json

/-- An integer as a value. -/
def integer (n : Int) : Json := .number (.integer n)

/-- The value of the only member with the given key. -/
def only? (key : String) (members : List (String × Json)) : Option Json :=
  match members.filter (·.1 == key) with
  | [(_, v)] => some v
  | _ => none

/-! ## Members in order -/

/-- Members by increasing keys. -/
def byKey (members : List (String × Json)) : List (String × Json) :=
  members.mergeSort fun a b => decide (a.1 ≤ b.1)

mutual

/-- The value in which every object has its members by increasing keys. -/
def sorted : Json → Json
  | .array items => .array (sortedItems items)
  | .object members => .object (byKey (sortedMembers members))
  | .null => .null
  | .bool b => .bool b
  | .number n => .number n
  | .string s => .string s

/-- Every item sorted. -/
def sortedItems : List Json → List Json
  | [] => []
  | v :: rest => v.sorted :: sortedItems rest

/-- Every member's value sorted. -/
def sortedMembers : List (String × Json) → List (String × Json)
  | [] => []
  | (key, v) :: rest => (key, v.sorted) :: sortedMembers rest

end

end Json
end PointerMotion
