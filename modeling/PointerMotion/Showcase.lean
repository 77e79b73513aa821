import PointerMotion.Document.Geometry
import PointerMotion.Factory
import PointerMotion.Json.Printer
import PointerMotion.Settings.Toml

/-!
# The showcase

One document with every gesture of the factory over a sample area, for the timings of a given
settings document or for the default ones.  It is meant for people, and set out accordingly: with
indentation, and with the members of every object in alphabetical order.

The gestures over the sample area do not leave the range of coordinates, but that is a fact about
the area and not about the factory, so the report has a place for that failure too.
-/

namespace PointerMotion.Showcase

/-- The area that gestures are shown over. -/
def area : Rect := ⟨0, 0, 1080, 1920⟩

/-- The speed of every gesture shown, in pixels per second. -/
def speed : UInt32 := 2000

/-- The part of the area that a swipe covers. -/
def swipePercent : Single := .ofRatio .binary32 8 10

/-- The part of the way to the center that a pinch covers. -/
def pinchPercent : Single := .ofRatio .binary32 75 100

/-- How far below the top edge of the area the drag ends. -/
def dragMargin : Coord := 100

/-- A swipe over the area, with its direction. -/
def swipe (f : Factory) (direction : Direction) : Traced Json := do
  let g ← f.swipeOver area direction swipePercent speed
  return .object [("direction", direction.toJson), ("gesture", g.toJson)]

/-- Two gestures as an array. -/
def pair (gestures : Gesture × Gesture) : Json :=
  .array [gestures.1.toJson, gestures.2.toJson]

/-- Every gesture of a factory over the area. -/
def description (f : Factory) : Traced Json := do
  let center ← area.center
  let swipes ← Direction.all.mapM (swipe f)
  let dragEnd : Point := ⟨center.x, ← area.top.add dragMargin⟩
  let drag ← f.drag center dragEnd speed
  let close ← f.pinchClose area pinchPercent speed
  let opening ← f.pinchOpen area pinchPercent speed
  return .object [
    ("area", area.toJson),
    ("click", (f.click center).toJson),
    ("long_click", (f.longClick center).toJson),
    ("drag", drag.toJson),
    ("swipe_rect", .array swipes),
    ("pinch_close", pair close),
    ("pinch_open", pair opening)]

/-- Where the settings come from. -/
inductive Source where
  /-- There is no document of settings. -/
  | default
  /-- The document has the given text. -/
  | document (text : String)
  /-- The document should be at the given path, but is not. -/
  | missing (path : String)

/-- Why there is no report. -/
inductive Failure where
  | settings (cause : Settings.Failure)
  | overflow (cause : Overflow)
  deriving DecidableEq

/-- The wording of a failure. -/
def Failure.message : Failure → String
  | settings cause => cause.message
  | overflow cause => cause.message

/-- The settings from a source. -/
def Source.settings : Source → Except Settings.Failure Settings
  | default => .ok {}
  | document text => Settings.ofToml text
  | missing path => .error (.unreadable path)

/-- The document that shows the factory, for settings from a source. -/
def report (source : Source) : Except Failure String :=
  match source.settings with
  | .error e => .error (.settings e)
  | .ok settings =>
    match (description ⟨settings⟩).outcome with
    | .error e => .error (.overflow e)
    | .ok v => .ok (v.sorted.pretty ++ "\n")

end PointerMotion.Showcase
