import PointerMotion.Document.Gesture
import PointerMotion.Settings

/-!
# Settings in documents

Settings are an object with a member for each timing, or the array of the timings.  In either
form a timing that is missing has its default.  Settings are written by hand, so a key that is
not known is taken for a mistake, and refused, instead of being skipped.
-/

namespace PointerMotion.Settings

open Json (Fault Reader)
open Json.Reader

/-- The timings by name. -/
inductive Field where
  | longPress
  | pressed
  deriving DecidableEq, Repr

/-- The key of a timing, in every kind of document. -/
def Field.key : Field → String
  | longPress => "long_press_timeout_ms"
  | pressed => "pressed_state_duration_ms"

/-- The timing with a key. -/
def Field.ofKey? (s : String) : Option Field := [longPress, pressed].find? (·.key == s)

/-- The timings found so far. -/
structure Found where
  longPress : Option Duration := none
  pressed : Option Duration := none

namespace Found

/-- What was found for a timing. -/
def get? (f : Found) : Field → Option Duration
  | .longPress => f.longPress
  | .pressed => f.pressed

/-- With one more timing. -/
def put (f : Found) : Field → Duration → Found
  | .longPress, d => { f with longPress := some d }
  | .pressed, d => { f with pressed := some d }

/-- The settings with defaults for the timings not found. -/
def settings (f : Found) : Settings where
  longPress := f.longPress.getD (default : Settings).longPress
  pressed := f.pressed.getD (default : Settings).pressed

end Found

/-- Settings are written as an object with both timings, defaults included. -/
def toJson (s : Settings) : Json :=
  .object [(Field.longPress.key, s.longPress.toJson), (Field.pressed.key, s.pressed.toJson)]

/-- What a member of settings amounts to. -/
def member (key : String) (f : Found) : Except Fault (Reader Found) :=
  match Field.ofKey? key with
  | some field => once (f.get? field) Duration.reader (f.put field)
  | none => .error .mismatch

/-- Take settings in either form, with defaults for what is missing. -/
def reader : Reader Settings := do
  match ← peek with
  | '[' =>
    discard take
    let s : Settings := ⟨← itemOr true (default : Settings).longPress Duration.reader,
      ← itemOr false (default : Settings).pressed Duration.reader⟩
    punctuation ']'
    return s
  | '{' => return (← object member {}).settings
  | _ => unexpected

end PointerMotion.Settings
