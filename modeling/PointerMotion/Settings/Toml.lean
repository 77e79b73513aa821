import PointerMotion.Document.Settings

/-!
# Settings in TOML

The document of settings that people write.  Its only content is numbers of milliseconds, so what
has to be understood of TOML is small: lines with a key and an integer, blank lines, comments.
Whatever else TOML has --- tables, dotted keys, values of other kinds --- is no setting, and a
document that has it is refused as a whole, just as one that is no TOML.  There is one failure.

What is understood is understood completely.  A key may be bare or quoted in either way, with
escapes; an integer may have a sign, a base, and underscores between its digits; a line may end in
a line feed with or without a carriage return; and the document may begin with a byte order mark.
-/

namespace PointerMotion.Settings

/-- Why there are no settings. -/
inductive Failure where
  /-- There is no document at the path. -/
  | unreadable (path : String)
  /-- The document is not one of settings. -/
  | unparsable
  deriving DecidableEq, Repr

/-- The wording of a failure. -/
def Failure.message : Failure → String
  | unreadable path => s!"Failed to read configuration {path}"
  | unparsable => "Failed to parse gesture configuration"

namespace Toml

/-! ## Characters -/

/-- A character that may stand between the parts of a line. -/
def isBlank (c : Char) : Bool := c == ' ' || c == '\t'

/-- A character that may stand in a comment or between quotes. -/
def isPrintable (c : Char) : Bool := c == '\t' || 0x20 ≤ c.toNat && c.toNat != 0x7F

/-- A character that may stand in a key without quotes. -/
def isBare (c : Char) : Bool := c.isAlphanum || c == '_' || c == '-'

/-! ## Integers -/

/-- The value of a digit in a base. -/
def digit? (base : Nat) (c : Char) : Option Nat := do
  let n ← Json.Reader.hexValue? c
  if n < base then some n else none

/-- The number that goes on with the given digits, each of which may follow an underscore. -/
def digitsFrom? (base : Nat) : Nat → List Char → Option Nat
  | n, [] => some n
  | n, '_' :: c :: rest => do digitsFrom? base (base * n + (← digit? base c)) rest
  | n, c :: rest => do digitsFrom? base (base * n + (← digit? base c)) rest

/-- The number with the given digits, which may be grouped by underscores. -/
def digits? (base : Nat) : List Char → Option Nat
  | [] => none
  | c :: rest => do digitsFrom? base (← digit? base c) rest

/-- The number with the given decimal digits, without superfluous zeros. -/
def decimal? : List Char → Option Nat
  | '0' :: _ :: _ => none
  | ds => digits? 10 ds

/-- The integer written as the given characters. -/
def integer? : List Char → Option Int
  | '0' :: 'x' :: ds => (digits? 16 ds).map Int.ofNat
  | '0' :: 'o' :: ds => (digits? 8 ds).map Int.ofNat
  | '0' :: 'b' :: ds => (digits? 2 ds).map Int.ofNat
  | '+' :: ds => (decimal? ds).map Int.ofNat
  | '-' :: ds => (decimal? ds).map (fun n => -Int.ofNat n)
  | ds => (decimal? ds).map Int.ofNat

/-! ## Keys -/

/-- The character of an escape with one letter. -/
def escape? : Char → Option Char
  | 'b' => some '\x08'
  | 't' => some '\t'
  | 'n' => some '\n'
  | 'f' => some '\x0c'
  | 'r' => some '\r'
  | 'e' => some '\x1b'
  | '"' => some '"'
  | '\\' => some '\\'
  | _ => none

/-- How many hexadecimal digits an escape has, if its letter says that it has some. -/
def escapeWidth? : Char → Option Nat
  | 'x' => some 2
  | 'u' => some 4
  | 'U' => some 8
  | _ => none

/-- The character with a number, if there is one. -/
def char? (n : Nat) : Option Char := if n.isValidChar then some (.ofNat n) else none

/-- The next character between double quotes, and what follows it. -/
def basicChar? : List Char → Option (Char × List Char)
  | [] => none
  | '\\' :: c :: rest =>
    match escapeWidth? c with
    | some width => do
      let n ← Json.Reader.hexDigitsValue? (rest.take width)
      if (rest.take width).length = width then return (← char? n, rest.drop width) else none
    | none => return (← escape? c, rest)
  | c :: rest => if isPrintable c && c != '\\' then some (c, rest) else none

/-- The key up to a double quote, from a text of at most the given length. -/
def basic? : Nat → List Char → Option (List Char × List Char)
  | _, '"' :: rest => some ([], rest)
  | 0, _ => none
  | n + 1, text => do
    let (c, rest) ← basicChar? text
    let (key, rest) ← basic? n rest
    return (c :: key, rest)

/-- The key up to a single quote. -/
def literal? : List Char → Option (List Char × List Char)
  | [] => none
  | c :: rest =>
    if c = '\'' then some ([], rest)
    else if isPrintable c then do
      let (key, rest) ← literal? rest
      return (c :: key, rest)
    else none

/-- The key at the front of a line. -/
def key? : List Char → Option (List Char × List Char)
  | '"' :: rest => basic? rest.length rest
  | '\'' :: rest => literal? rest
  | text =>
    match text.span isBare with
    | ([], _) => none
    | (key, rest) => some (key, rest)

/-! ## Lines -/

/-- The lines of a text, without what ends them. -/
def lines : List Char → List (List Char)
  | [] => [[]]
  | '\n' :: rest => [] :: lines rest
  | '\r' :: '\n' :: rest => [] :: lines rest
  | c :: rest =>
    match lines rest with
    | [] => [[c]]
    | line :: others => (c :: line) :: others

/-- Nothing is left on a line but a comment. -/
def isRemark (line : List Char) : Bool :=
  match line.dropWhile isBlank with
  | [] => true
  | '#' :: comment => comment.all isPrintable
  | _ => false

/-- The key and the integer on a line. -/
def entry? (line : List Char) : Option (String × Int) := do
  let (key, rest) ← key? (line.dropWhile isBlank)
  match rest.dropWhile isBlank with
  | '=' :: rest =>
    let (value, rest) := (rest.dropWhile isBlank).span (fun c => !isBlank c && c != '#')
    if isRemark rest then return (.ofList key, ← integer? value) else none
  | _ => none

/-- What was found in a document, with one more line. -/
def withLine (f : Found) (line : List Char) : Option Found :=
  if isRemark line then some f
  else do
    let (key, n) ← entry? line
    let field ← Field.ofKey? key
    if (f.get? field).isSome then none else return f.put field (← Duration.ofWritten? n)

/-- A text without the mark that may stand in front of it. -/
def withoutMark : List Char → List Char
  | '\ufeff' :: rest => rest
  | text => text

end Toml

/-- The settings in a TOML document. -/
def ofToml (text : String) : Except Failure Settings :=
  match (Toml.lines (Toml.withoutMark text.toList)).foldlM Toml.withLine {} with
  | some f => .ok f.settings
  | none => .error .unparsable

end PointerMotion.Settings
