import PointerMotion.Json.Value

/-!
# Reading JSON

A reader takes what it reads off the front of a text, and leaves the rest.  It fails in one of
three ways, which are kept apart because a caller may act on them: the text was *truncated*, so a
longer one might do; it was *malformed*, so it is no document at all; or it was a document, of
values that are a *mismatch* for what was to be read.  The first failure in the order of reading
is the one reported.

Readers of this library go through the text once and take typed values directly from it.  There is
no stage that first reads all of a document, so a mismatch early in a text is reported in
preference to a malformed part later in it.

## Repetition

Whatever repeats does so through `Reader.loop`, which runs a step until the step says that it is
done.  A step that goes on has taken at least one character, so a text of `n` characters bounds
the number of steps by `n + 1`; the bound is computed from the text and never seen outside.
-/

namespace PointerMotion.Json

/-- Why reading failed. -/
inductive Fault where
  /-- The text ends too early. -/
  | truncated
  /-- The text is not JSON. -/
  | malformed
  /-- The value is not of the shape that was to be read. -/
  | mismatch
  deriving DecidableEq, Repr

/-- What takes a value off the front of a text. -/
abbrev Reader := StateT (List Char) (Except Fault)

namespace Reader

variable {α σ : Type}

/-! ## Characters -/

/-- The blanks that may stand between the parts of a document. -/
def isBlank (c : Char) : Bool := c == ' ' || c == '\n' || c == '\t' || c == '\r'

/-- Take one character. -/
def take : Reader Char
  | [] => .error .truncated
  | c :: rest => .ok (c, rest)

/-- Skip blanks, and look at the character after them without taking it. -/
def peek : Reader Char := fun text =>
  match text.dropWhile isBlank with
  | [] => .error .truncated
  | c :: rest => .ok (c, c :: rest)

/-- Take the next character, if it is one of a kind. -/
def take? (kind : Char → Bool) : Reader (Option Char)
  | [] => .ok (none, [])
  | c :: rest => if kind c then .ok (some c, rest) else .ok (none, c :: rest)

/-- Skip blanks and take the given character. -/
def punctuation (c : Char) : Reader Unit := do
  if (← peek) = c then discard take else throw .malformed

/-- Take the given characters. -/
def literal : List Char → Reader Unit
  | [] => return
  | c :: rest => do
    if (← take) = c then literal rest else throw .malformed

/-! ## Repetition -/

/-- Run a step until it is done, at most the given number of times. -/
def iterate (step : σ → Reader (Option σ)) : Nat → σ → Reader σ
  | 0, _ => throw .truncated
  | n + 1, s => do
    match ← step s with
    | some s => iterate step n s
    | none => return s

/-- Run a step until it is done. -/
def loop (step : σ → Reader (Option σ)) (s : σ) : Reader σ := fun text =>
  iterate step (text.length + 1) s text

/-! ## Whole texts -/

/-- The value of a text that holds nothing else, apart from blanks. -/
def parse (r : Reader α) (text : String) : Except Fault α := do
  let (a, rest) ← r text.toList
  if rest.dropWhile isBlank = [] then return a else throw .malformed

end Reader
end PointerMotion.Json
