import PointerMotion.Json.Reader.Quoted
import PointerMotion.Proofs.Json.Reading

/-!
# The grammar of JSON

What a text has to be in order to be a JSON value, said without any reader.  `IsValue` follows the
grammar of the format symbol by symbol.  It says nothing about meaning: a number may be out of
every range, an escape may be half of a pair, and an object may have two members of one key.

The parts of a container are the *items* of an array and the *members* of an object.  Either of
them carries the blanks around it, so the text of a container is determined by its parts and by
the blanks in front of its closing bracket, and the parts of an object may be put in another order
without anything else being said about their text.

What stands behind the opening bracket, or behind a part, is the `remainder` of a container.  It is
what a reader of containers has in front of it, whenever it asks whether there is another part.
-/

namespace PointerMotion.Json

open Reader

/-! ## Numbers -/

/-- One digit or more. -/
def IsDigits (text : List Char) : Prop := text ≠ [] ∧ ∀ c ∈ text, c.isDigit = true

/-- Zero, or digits of which the first is not zero. -/
def IsWholePart (text : List Char) : Prop :=
  text = ['0'] ∨ IsDigits text ∧ text.head? ≠ some '0'

/-- Digits behind a point, or nothing. -/
def IsFractionPart (text : List Char) : Prop :=
  text = [] ∨ ∃ ds, IsDigits ds ∧ text = '.' :: ds

/-- Digits behind the letter of an exponent and maybe a sign, or nothing. -/
def IsExponentPart (text : List Char) : Prop :=
  text = [] ∨ ∃ letter sign ds, (letter = 'e' ∨ letter = 'E') ∧
    (sign = [] ∨ sign = ['+'] ∨ sign = ['-']) ∧ IsDigits ds ∧ text = letter :: (sign ++ ds)

/-- The text of a number. -/
inductive IsNumber : List Char → Prop where
  | ofParts {sign whole fraction exponent : List Char} (hsign : sign = [] ∨ sign = ['-'])
      (hwhole : IsWholePart whole) (hfraction : IsFractionPart fraction)
      (hexponent : IsExponentPart exponent) :
      IsNumber (sign ++ (whole ++ (fraction ++ exponent)))

theorem isNumber_iff {text : List Char} : IsNumber text ↔
    ∃ sign whole fraction exponent, (sign = [] ∨ sign = ['-']) ∧ IsWholePart whole ∧
      IsFractionPart fraction ∧ IsExponentPart exponent ∧
      text = sign ++ (whole ++ (fraction ++ exponent)) := by
  constructor
  · rintro ⟨hsign, hwhole, hfraction, hexponent⟩
    exact ⟨_, _, _, _, hsign, hwhole, hfraction, hexponent, rfl⟩
  · rintro ⟨sign, whole, fraction, exponent, hsign, hwhole, hfraction, hexponent, rfl⟩
    exact .ofParts hsign hwhole hfraction hexponent

/-! ## Strings -/

/-- What stands between the quotes of a string without being divided: a character that stands for
itself, or an escape. -/
inductive IsStroke : List Char → Prop where
  | plain {c : Char} (hquote : c ≠ '"') (hbackslash : c ≠ '\\') (hcontrol : 0x20 ≤ c.toNat) :
      IsStroke [c]
  | short {c : Char} (hc : c ∈ ['"', '\\', '/', 'b', 'f', 'n', 'r', 't']) : IsStroke ['\\', c]
  | unicode {a b c d : Char} (h : ∀ x ∈ [a, b, c, d], (hexValue? x).isSome) :
      IsStroke ['\\', 'u', a, b, c, d]

/-- The text of a string, between its quotes. -/
inductive IsString : List Char → Prop where
  | ofStrokes {strokes : List (List Char)} (h : ∀ s ∈ strokes, IsStroke s) :
      IsString ('"' :: (strokes.flatten ++ ['"']))

theorem isString_iff {text : List Char} : IsString text ↔
    ∃ strokes : List (List Char), (∀ s ∈ strokes, IsStroke s) ∧
      text = '"' :: (strokes.flatten ++ ['"']) := by
  constructor
  · rintro ⟨h⟩
    exact ⟨_, h, rfl⟩
  · rintro ⟨strokes, h, rfl⟩
    exact .ofStrokes h

/-! ## Containers -/

/-- What is left of a container: the texts of its parts that are to come, divided by commas, then
blanks and the closing bracket.  The flag says that no part was before. -/
def remainder (inner : List Char) (last : Char) : Bool → List (List Char) → List Char
  | _, [] => inner ++ [last]
  | first, text :: texts =>
    (if first then [] else [',']) ++ (text ++ remainder inner last false texts)

/-- A text between blanks. -/
structure Item where
  before : List Char
  text : List Char
  after : List Char
  blank_before : Blank before
  blank_after : Blank after

/-- An item with the blanks around it. -/
def Item.whole (i : Item) : List Char := i.before ++ (i.text ++ i.after)

/-- A member of an object: a key and a text, with a colon between them and blanks anywhere. -/
structure Member where
  before : List Char
  key : List Char
  after : List Char
  item : Item
  blank_before : Blank before
  blank_after : Blank after
  isString_key : IsString key

/-- A member with the blanks around it. -/
def Member.whole (m : Member) : List Char :=
  m.before ++ (m.key ++ (m.after ++ ':' :: m.item.whole))

/-- The text of an array, with blanks before its closing bracket. -/
def brackets (inner : List Char) (items : List Item) : List Char :=
  '[' :: remainder inner ']' true (items.map Item.whole)

/-- The text of an object, with blanks before its closing brace. -/
def braces (inner : List Char) (members : List Member) : List Char :=
  '{' :: remainder inner '}' true (members.map Member.whole)

/-- **The text of a JSON value.** -/
inductive IsValue : List Char → Prop where
  | null : IsValue ['n', 'u', 'l', 'l']
  | true : IsValue ['t', 'r', 'u', 'e']
  | false : IsValue ['f', 'a', 'l', 's', 'e']
  | number {text : List Char} (h : IsNumber text) : IsValue text
  | string {text : List Char} (h : IsString text) : IsValue text
  | array {inner : List Char} {items : List Item} (hinner : Blank inner)
      (h : ∀ i ∈ items, IsValue i.text) : IsValue (brackets inner items)
  | object {inner : List Char} {members : List Member} (hinner : Blank inner)
      (h : ∀ m ∈ members, IsValue m.item.text) : IsValue (braces inner members)

end PointerMotion.Json
