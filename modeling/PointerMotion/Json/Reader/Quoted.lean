import PointerMotion.Json.Reader

/-!
# Reading strings

Between its quotes a string has characters that stand for themselves and escapes.  An escape with
four hexadecimal digits gives a unit of sixteen bits; a character beyond that range is given by
two of them, and one that belongs to such a pair may not stand alone.

Four digits are taken together: as long as there are four bytes of text, digits or not, nothing
is missing.
-/

namespace PointerMotion.Json.Reader

/-- The value of a hexadecimal digit. -/
def hexValue? (c : Char) : Option Nat :=
  if c.isDigit then some (c.toNat - '0'.toNat)
  else if 'a' ≤ c ∧ c ≤ 'f' then some (c.toNat - 'a'.toNat + 10)
  else if 'A' ≤ c ∧ c ≤ 'F' then some (c.toNat - 'A'.toNat + 10)
  else none

/-- The number with the given hexadecimal digits. -/
def hexDigitsValue? (ds : List Char) : Option Nat :=
  ds.foldlM (fun n d => return 16 * n + (← hexValue? d)) 0

/-- Take four hexadecimal digits. -/
def codeUnit : Reader Nat := fun text =>
  match hexDigitsValue? (text.take 4), text.drop 3 with
  | some n, _ :: _ => .ok (n, text.drop 4)
  | _, _ =>
    if (text.take 4).foldl (fun n c => n + c.utf8Size) 0 < 4 then .error .truncated
    else .error .malformed

/-- The unit is the first of a pair. -/
def isLeading (n : Nat) : Bool := 0xD800 ≤ n && n < 0xDC00

/-- The unit is the second of a pair. -/
def isTrailing (n : Nat) : Bool := 0xDC00 ≤ n && n < 0xE000

/-- Take the character of an escape with hexadecimal digits. -/
def unicode : Reader Char := do
  let n ← codeUnit
  if isTrailing n then throw .malformed
  if isLeading n then
    literal ['\\', 'u']
    let m ← codeUnit
    if isTrailing m then return .ofNat (0x10000 + (n - 0xD800) * 0x400 + (m - 0xDC00))
    else throw .malformed
  else
    return .ofNat n

/-- The character of an escape with one letter. -/
def escape? : Char → Option Char
  | '"' => some '"'
  | '\\' => some '\\'
  | '/' => some '/'
  | 'b' => some '\x08'
  | 'f' => some '\x0c'
  | 'n' => some '\n'
  | 'r' => some '\r'
  | 't' => some '\t'
  | _ => none

/-- Take what stands for one character of a string, or the quote at its end. -/
def character : Reader (Option Char) := do
  match ← take with
  | '"' => return none
  | '\\' =>
    match ← take with
    | 'u' => return some (← unicode)
    | c =>
      match escape? c with
      | some c => return some c
      | none => throw .malformed
  | c => if c.toNat < 0x20 then throw .malformed else return some c

/-- Take a string, from its first quote on. -/
def quoted : Reader String := do
  let _ ← take
  let characters ← loop (fun cs => return (← character).map (· :: cs)) []
  return .ofList characters.reverse

end PointerMotion.Json.Reader
