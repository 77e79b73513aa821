import PointerMotion.Json.Value

/-!
# The text of JSON values

A value has one text for each *layout*.  A layout says what stands after an opening bracket or a
comma, and what stands between a key and its value; it never changes anything else, so what is
proved of reading a text holds for every layout that adds blanks only.  Two layouts are in use: a
compact one, without any blank, and an indented one, with every item on a line of its own.

Inside a string only what must be escaped is escaped: the quote, the backslash, and control
characters, which have a short form or else four hexadecimal digits.
-/

namespace PointerMotion.Json

/-- The hexadecimal digit of a number below sixteen. -/
def hexDigit (n : Nat) : Char := Nat.digitChar n

/-- How a character stands inside a string. -/
def escaped (c : Char) : List Char :=
  match c with
  | '"' => ['\\', '"']
  | '\\' => ['\\', '\\']
  | '\x08' => ['\\', 'b']
  | '\x0c' => ['\\', 'f']
  | '\n' => ['\\', 'n']
  | '\r' => ['\\', 'r']
  | '\t' => ['\\', 't']
  | c =>
    if c.toNat < 0x20 then
      ['\\', 'u', '0', '0', hexDigit (c.toNat / 16), hexDigit (c.toNat % 16)]
    else
      [c]

/-- A string between quotes. -/
def quote (s : String) : List Char := '"' :: s.toList.flatMap escaped ++ ['"']

/-- The text of a number. -/
def Number.text : Number → List Char
  | .integer n => (toString n).toList
  | .decimal negative significand exponent =>
    (if negative then ['-'] else []) ++ (toString significand).toList ++
      'e' :: (toString exponent).toList

/-- How the parts of a container are set out. -/
structure Layout where
  /-- What stands before an item at the given depth, or before a closing bracket. -/
  newline : Nat → List Char
  /-- What stands between a key and its value. -/
  colon : List Char

namespace Layout

/-- Nothing is added. -/
def compact : Layout := ⟨fun _ => [], [':']⟩

/-- Every item is on a line of its own, two spaces further in than its container. -/
def indented : Layout := ⟨fun depth => '\n' :: List.replicate (2 * depth) ' ', [':', ' ']⟩

/-- The texts of items between brackets, at the depth of the container. -/
def enclose (layout : Layout) (depth : Nat) (first last : Char) :
    List (List Char) → List Char
  | [] => [first, last]
  | texts =>
    first :: layout.newline (depth + 1) ++
      (',' :: layout.newline (depth + 1)).intercalate texts ++ layout.newline depth ++ [last]

end Layout

mutual

/-- The text of a value at a depth. -/
def render (layout : Layout) (depth : Nat) : Json → List Char
  | .null => ['n', 'u', 'l', 'l']
  | .bool true => ['t', 'r', 'u', 'e']
  | .bool false => ['f', 'a', 'l', 's', 'e']
  | .number n => n.text
  | .string s => quote s
  | .array items => layout.enclose depth '[' ']' (renderItems layout (depth + 1) items)
  | .object members => layout.enclose depth '{' '}' (renderMembers layout (depth + 1) members)

/-- The texts of items at a depth. -/
def renderItems (layout : Layout) (depth : Nat) : List Json → List (List Char)
  | [] => []
  | v :: rest => render layout depth v :: renderItems layout depth rest

/-- The texts of members at a depth. -/
def renderMembers (layout : Layout) (depth : Nat) : List (String × Json) → List (List Char)
  | [] => []
  | (key, v) :: rest =>
    (quote key ++ layout.colon ++ render layout depth v) :: renderMembers layout depth rest

end

/-- The text of a value without blanks. -/
def compact (v : Json) : String := String.ofList (v.render .compact 0)

/-- The text of a value, one item a line. -/
def pretty (v : Json) : String := String.ofList (v.render .indented 0)

end PointerMotion.Json
