import PointerMotion.Json.Reader.Quoted

/-!
# Reading arrays and objects

Every reader of a container asks the same question before each part: is there another one?  The
question takes the comma in front of the part, and leaves the closing bracket where it is, so a
reader that wants a fixed number of parts can ask, and then insist on the bracket.

Between the key of a member and its value stands a colon.  What to do with a member is decided
after its key and *before* the colon: a key may be refused there, and otherwise gives a reader for
the value.
-/

namespace PointerMotion.Json.Reader

variable {α σ : Type}

/-- Whether an array has another item; `first` says that it would be the first. -/
def hasItem (first : Bool) : Reader Bool := do
  match ← peek with
  | ']' => return false
  | c =>
    if first then
      return true
    else if c = ',' then
      discard take
      if (← peek) = ']' then throw .malformed else return true
    else
      throw .malformed

/-- Whether an object has another member; `first` says that it would be the first. -/
def hasMember (first : Bool) : Reader Bool := do
  match ← peek with
  | '}' => return false
  | c =>
    if first then
      if c = '"' then return true else throw .malformed
    else if c = ',' then
      discard take
      if (← peek) = '"' then return true else throw .malformed
    else
      throw .malformed

/-- Take the key of a member.  Keys are strings in every document, so anything else in the place of
one is malformed, whatever value it would be elsewhere. -/
def key : Reader String := do
  if (← peek) = '"' then quoted else throw .malformed

/-- Take an item that may not be missing. -/
def item (first : Bool) (r : Reader α) : Reader α := do
  if ← hasItem first then r else throw .mismatch

/-- Take an item, or use a default if it is missing. -/
def itemOr (first : Bool) (default : α) (r : Reader α) : Reader α := do
  if ← hasItem first then r else return default

/-- Take the items that are left in an array, and the bracket after them. -/
def items (first : Bool) (r : Reader α) : Reader (List α) := do
  let taken ← loop
    (fun taken : List α => do
      if ← hasItem (first && taken.isEmpty) then return some ((← r) :: taken) else return none)
    []
  punctuation ']'
  return taken.reverse

/-- Take an array, from its bracket on. -/
def array (r : Reader α) : Reader (List α) := do
  discard take
  items true r

/-- Take an object, from its bracket on.  A key is answered with a failure, or with the reader of
its value, which is given what the members before it amount to. -/
def objectWith (key : Reader α) (member : α → σ → Except Fault (Reader σ)) (empty : σ) :
    Reader σ := do
  discard take
  let (_, s) ← loop
    (fun (first, s) => do
      if ← hasMember first then
        let value ← member (← key) s
        punctuation ':'
        return some (false, ← value)
      else
        return none)
    (true, empty)
  punctuation '}'
  return s

/-- Take an object whose keys are strings to be told apart. -/
def object (member : String → σ → Except Fault (Reader σ)) (empty : σ) : Reader σ :=
  objectWith quoted member empty

/-- The reader of a member that may occur once. -/
def once (before : Option α) (r : Reader α) (put : α → σ) : Except Fault (Reader σ) :=
  match before with
  | some _ => .error .mismatch
  | none => .ok (put <$> r)

/-- The value of a member that may not be missing. -/
def required (found : Option α) : Reader α :=
  match found with
  | some a => return a
  | none => throw .mismatch

end PointerMotion.Json.Reader
