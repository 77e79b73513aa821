import PointerMotion.Geometry.Direction
import PointerMotion.Geometry.Rect
import PointerMotion.Json.Reader.Value

/-!
# Geometry in documents

A point is the array of its two coordinates.  A rectangle is an object with a member for each
edge; it may also be given as the array of its edges in the order left, top, right, bottom.  A
direction is its name, or else an object whose only member has the name for its key and null for
its value.

An array has to have exactly the items it stands for: too few are a mismatch, and after the last
one nothing but the bracket is understood.  In an object the order of members is free, unknown
ones are skipped, and each known one has to be there once.
-/

namespace PointerMotion

open Json (Fault Reader)
open Json.Reader

/-! ## Coordinates -/

namespace Coord

/-- A coordinate is written as the number it is. -/
def toJson (c : Coord) : Json := .integer c.val

/-- The coordinate that a value stands for. -/
def ofJson? : Json → Option Coord
  | .number (.integer n) => ofInt? n
  | _ => none

/-- Take an integer that is a coordinate. -/
def reader : Reader Coord := wanted integer ofInt?

end Coord

/-! ## Points -/

namespace Point

/-- A point is written as the array of its coordinates. -/
def toJson (p : Point) : Json := .array [p.x.toJson, p.y.toJson]

/-- The point that a value stands for. -/
def ofJson? : Json → Option Point
  | .array [x, y] => return ⟨← Coord.ofJson? x, ← Coord.ofJson? y⟩
  | _ => none

/-- Take a point.  It has no form but the array. -/
def reader : Reader Point := do
  match ← peek with
  | '[' =>
    discard take
    let p : Point := ⟨← item true Coord.reader, ← item false Coord.reader⟩
    punctuation ']'
    return p
  | _ => unexpected

end Point

/-! ## Rectangles -/

namespace Rect

/-- A rectangle is written as an object, with its edges in the order of their declaration. -/
def toJson (r : Rect) : Json :=
  .object [("left", r.left.toJson), ("top", r.top.toJson), ("right", r.right.toJson),
    ("bottom", r.bottom.toJson)]

/-- The edges found so far. -/
structure Found where
  left : Option Coord := none
  top : Option Coord := none
  right : Option Coord := none
  bottom : Option Coord := none

/-- What a member of a rectangle amounts to. -/
def member (key : String) (f : Found) : Except Fault (Reader Found) :=
  match key with
  | "left" => once f.left Coord.reader fun c => { f with left := some c }
  | "top" => once f.top Coord.reader fun c => { f with top := some c }
  | "right" => once f.right Coord.reader fun c => { f with right := some c }
  | "bottom" => once f.bottom Coord.reader fun c => { f with bottom := some c }
  | _ => .ok (skip *> pure f)

/-- Take a rectangle in either form. -/
def reader : Reader Rect := do
  match ← peek with
  | '[' =>
    discard take
    let r : Rect := ⟨← item true Coord.reader, ← item false Coord.reader,
      ← item false Coord.reader, ← item false Coord.reader⟩
    punctuation ']'
    return r
  | '{' =>
    let f ← object member {}
    return ⟨← required f.left, ← required f.top, ← required f.right, ← required f.bottom⟩
  | _ => unexpected

end Rect

/-! ## Directions -/

namespace Direction

/-- A direction is written as its name. -/
def toJson (d : Direction) : Json := .string d.name

/-- Take a direction, as its name or as the object of it. -/
def reader : Reader Direction := do
  match ← peek with
  | '"' => wanted quoted ofName?
  | '{' =>
    discard take
    let d ← wanted key ofName?
    punctuation ':'
    null
    punctuation '}'
    return d
  | _ => throw .malformed

end Direction

end PointerMotion
