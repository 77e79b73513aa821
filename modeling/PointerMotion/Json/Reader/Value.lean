import PointerMotion.Json.Reader.Container
import PointerMotion.Json.Reader.Number

/-!
# Reading any value

There are three ways to read a value whose kind is not known beforehand.

* `value` keeps it.  Containers inside containers are kept to a limited depth, so that a small
  text cannot ask for an unlimited one.
* `skip` only finds its end.  It has no such limit, and it is *lenient*: it asks no more of
  numbers and strings than it takes to see where they end, so a number may be out of every range
  and an escape may be half of a pair.  A number that ends too early is malformed here, not
  truncated.
* `unexpected` meets it where something else was to be read.  The value is a mismatch, unless it
  already fails as a value: scalars are read to their end to see that, containers are not.
-/

namespace PointerMotion.Json.Reader

variable {α β : Type}

/-- The character may begin a number. -/
def beginsNumber (c : Char) : Bool := c == '-' || c.isDigit

/-- Take a scalar by the given readers of strings and numbers. -/
def scalarWith (string number : Reader Json) : Reader Json := do
  match ← peek with
  | 'n' => literal ['n', 'u', 'l', 'l']; return .null
  | 't' => literal ['t', 'r', 'u', 'e']; return .bool true
  | 'f' => literal ['f', 'a', 'l', 's', 'e']; return .bool false
  | '"' => string
  | c => if beginsNumber c then number else throw .malformed

/-- Take a scalar. -/
def scalar : Reader Json := scalarWith (.string <$> quoted) (.number <$> number)

/-- Meet a value that is not what was to be read. -/
def unexpected : Reader α := do
  match ← peek with
  | '[' | '{' => throw .mismatch
  | _ => discard scalar; throw .mismatch

/-! ## Keeping values -/

/-- How many containers may be open at once where values are kept. -/
def greatestDepth : Nat := 127

/-- The members of an object in order. -/
def members (r : Reader Json) : Reader (List (String × Json)) := do
  let taken ← object (fun key before => .ok ((fun v => (key, v) :: before) <$> r)) []
  return taken.reverse

/-- Take a value that has at most the given number of containers inside each other. -/
def value : Nat → Reader Json
  | 0 => do
    match ← peek with
    | '[' | '{' => throw .malformed
    | _ => scalar
  | depth + 1 => do
    match ← peek with
    | '[' => return .array (← array (value depth))
    | '{' => return .object (← members (value depth))
    | _ => scalar

/-! ## Skipping values -/

/-- A failure for want of text counts as malformed. -/
def strict (r : Reader α) : Reader α := fun text =>
  match r text with
  | .error .truncated => .error .malformed
  | outcome => outcome

/-- Find the end of a string. -/
def skipQuoted : Reader Unit := do
  discard take
  loop
    (fun () => do
      match ← take with
      | '"' => return none
      | '\\' =>
        match ← take with
        | 'u' => discard codeUnit; return some ()
        | c => if (escape? c).isSome then return some () else throw .malformed
      | c => if c.toNat < 0x20 then throw .malformed else return some ())
    ()

/-- Find the end of a value, with fewer containers inside each other than the given number. -/
def skipWithin : Nat → Reader Unit
  | 0 => throw .malformed
  | depth + 1 => do
    match ← peek with
    | '[' => discard (array (skipWithin depth))
    | '{' => objectWith skipQuoted (fun _ _ => .ok (skipWithin depth)) ()
    | _ => discard (scalarWith (skipQuoted *> pure .null) (strict parts *> pure .null))

/-- Find the end of a value. -/
def skip : Reader Unit := fun text => skipWithin (text.length + 1) text

/-! ## Scalars of one kind -/

/-- Take an integer. -/
def integer : Reader Int := do
  if beginsNumber (← peek) then
    match ← number with
    | .integer n => return n
    | .decimal .. => throw .mismatch
  else
    unexpected

/-- Take a string. -/
def string : Reader String := do
  if (← peek) = '"' then quoted else unexpected

/-- Take null. -/
def null : Reader Unit := do
  if (← peek) = 'n' then literal ['n', 'u', 'l', 'l'] else unexpected

/-- Take a value of which only some are wanted. -/
def wanted (r : Reader α) (want : α → Option β) : Reader β := do
  required (want (← r))

end PointerMotion.Json.Reader
