import PointerMotion.Document.Geometry
import PointerMotion.Gesture

/-!
# Gestures in documents

Durations are numbers of milliseconds.  A gesture is an object with its start, its delay and the
array of its actions, or the array of the three.

An action is an object with a tag that says which kind of action it is, and the members of that
kind; or it is the array of the tag and the values of these members in their order.  The tag may
stand anywhere in the object, so the other members cannot be read as what they are before the
whole action has been read: they are *kept as values* first, and taken apart afterwards.  This is
why a fault of form anywhere in an action is reported in preference to a fault of shape, and why
containers in an action are limited in depth; and in an action an array of too many items is a
mismatch.  The tag itself is understood as soon as it is read.
-/

namespace PointerMotion

open Json (Fault Reader)
open Json.Reader

/-! ## Durations -/

namespace Duration

/-- A duration is written as its whole milliseconds, as far as there is a number for them. -/
def toJson (d : Duration) : Json := .integer d.written

/-- The duration that a value stands for. -/
def ofJson? : Json → Option Duration
  | .number (.integer n) => ofWritten? n
  | _ => none

/-- Take an integer that is a number of milliseconds. -/
def reader : Reader Duration := wanted integer ofWritten?

end Duration

/-! ## Actions -/

namespace Action

/-- The kinds of actions. -/
inductive Kind where
  | pause
  | move
  deriving DecidableEq, Repr

/-- The tag of a kind. -/
def Kind.tag : Kind → String
  | .pause => "pause"
  | .move => "move"

/-- The kind with a tag. -/
def Kind.ofTag? (s : String) : Option Kind := [pause, move].find? (·.tag == s)

/-- The keys of the members of a kind. -/
def Kind.keys : Kind → List String
  | .pause => ["at", "duration"]
  | .move => ["from", "to", "duration"]

/-- The kind of an action. -/
def kind : Action → Kind
  | .pause .. => .pause
  | .move .. => .move

/-- The values of the members of an action. -/
def values : Action → List Json
  | .pause point d => [point.toJson, d.toJson]
  | .move origin target d => [origin.toJson, target.toJson, d.toJson]

/-- An action is written as an object with the tag in front. -/
def toJson (a : Action) : Json :=
  .object (("action", .string a.kind.tag) :: a.kind.keys.zip a.values)

/-- The action of a kind with the given values. -/
def ofValues? : Kind → List Json → Option Action
  | .pause, [point, d] => return .pause (← Point.ofJson? point) (← Duration.ofJson? d)
  | .move, [origin, target, d] =>
    return .move (← Point.ofJson? origin) (← Point.ofJson? target) (← Duration.ofJson? d)
  | _, _ => none

/-- The action of a kind with the given members; those of no meaning for the kind are ignored. -/
def ofMembers? (kind : Kind) (members : List (String × Json)) : Option Action := do
  ofValues? kind (← kind.keys.mapM fun key => Json.only? key members)

/-- Take a string that is a tag. -/
def tagReader : Reader Kind := wanted string Kind.ofTag?

/-- What has been found of an action: its kind, and the other members from the last on. -/
structure Found where
  kind : Option Kind := none
  members : List (String × Json) := []

/-- What a member of an action amounts to, where values may have the given depth. -/
def member (depth : Nat) (key : String) (f : Found) : Except Fault (Reader Found) :=
  match key with
  | "action" => once f.kind tagReader fun k => { f with kind := some k }
  | key => .ok ((fun v => { f with members := (key, v) :: f.members }) <$> value depth)

/-- Take an action inside the given number of containers. -/
def reader (around : Nat) : Reader Action := do
  let depth := greatestDepth - around - 1
  match ← peek with
  | '[' =>
    discard take
    let kind ← item true tagReader
    let values ← items false (value depth)
    required (ofValues? kind values)
  | '{' =>
    let f ← object (member depth) {}
    let kind ← required f.kind
    required (ofMembers? kind f.members.reverse)
  | _ => unexpected

end Action

/-! ## Gestures -/

namespace Gesture

/-- A gesture is written as an object, with its actions in the order they are performed in. -/
def toJson (g : Gesture) : Json :=
  .object [("start", g.start.toJson), ("delay", g.delay.toJson),
    ("actions", .array (g.actions.map Action.toJson))]

/-- Take the actions of a gesture. -/
def actionsReader : Reader (List Action) := do
  match ← peek with
  | '[' => array (Action.reader 2)
  | _ => unexpected

/-- The members found so far. -/
structure Found where
  start : Option Point := none
  delay : Option Duration := none
  actions : Option (List Action) := none

/-- What a member of a gesture amounts to. -/
def member (key : String) (f : Found) : Except Fault (Reader Found) :=
  match key with
  | "start" => once f.start Point.reader fun p => { f with start := some p }
  | "delay" => once f.delay Duration.reader fun d => { f with delay := some d }
  | "actions" => once f.actions actionsReader fun as => { f with actions := some as }
  | _ => .ok (skip *> pure f)

/-- Take a gesture in either form.  The form says nothing about that of its actions. -/
def reader : Reader Gesture := do
  match ← peek with
  | '[' =>
    discard take
    let g : Gesture := ⟨← item true Point.reader, ← item false Duration.reader,
      ← item false actionsReader⟩
    punctuation ']'
    return g
  | '{' =>
    let f ← object member {}
    return ⟨← required f.start, ← required f.delay, ← required f.actions⟩
  | _ => unexpected

end Gesture
end PointerMotion
