import PointerMotion.Proofs.Document.Reading
import PointerMotion.Proofs.Json.Result

/-!
# Values survive being written and read

`Document.Kind` lists the types that stand in documents, each with its writer, its reader, and
what it keeps.  The result is for all of them at once: what is read is what is kept, nothing is
lost exactly if every duration is whole, the text is the same the second time, and what was read
from *any* text is not changed at all.

The last part cannot be had from the first ones, because a text need not have been written here.
It rests on the readers instead: each of them gives whole durations only (`gives_isWhole`).
-/

namespace PointerMotion

open Json (Fault Reader)
open Json.Reader

/-! ## Readers give whole durations -/

theorem Duration.gives_isWhole : Gives Duration.reader IsWhole :=
  gives_wanted fun _ _ h => isWhole_of_ofWritten? h

theorem Duration.isWhole_of_ofJson? {v : Json} {d : Duration} (h : ofJson? v = some d) :
    d.IsWhole := by
  unfold ofJson? at h
  split at h
  · exact isWhole_of_ofWritten? h
  · cases h

namespace Action

theorem isWhole_of_ofValues? {kind : Kind} {values : List Json} {a : Action}
    (h : ofValues? kind values = some a) : a.duration.IsWhole := by
  unfold ofValues? at h
  split at h
  · simp only [Option.bind_eq_bind, Option.bind_eq_some_iff, Option.pure_def,
      Option.some.injEq] at h
    obtain ⟨_, _, d, hd, rfl⟩ := h
    exact Duration.isWhole_of_ofJson? hd
  · simp only [Option.bind_eq_bind, Option.bind_eq_some_iff, Option.pure_def,
      Option.some.injEq] at h
    obtain ⟨_, _, _, _, d, hd, rfl⟩ := h
    exact Duration.isWhole_of_ofJson? hd
  · cases h

theorem isWhole_of_ofMembers? {kind : Kind} {members : List (String × Json)} {a : Action}
    (h : ofMembers? kind members = some a) : a.duration.IsWhole := by
  simp only [ofMembers?, Option.bind_eq_bind, Option.bind_eq_some_iff] at h
  obtain ⟨values, -, h⟩ := h
  exact isWhole_of_ofValues? h

theorem gives_isWhole (around : Nat) :
    Gives (Action.reader around) fun a => a.duration.IsWhole := by
  refine gives_of_rest fun c => ?_
  split
  · refine gives_of_rest fun _ => gives_of_rest fun kind => gives_of_rest fun values => ?_
    exact gives_required fun a ha => isWhole_of_ofValues? ha
  · refine gives_of_rest fun f => gives_of_rest fun kind => ?_
    exact gives_required fun a ha => isWhole_of_ofMembers? ha
  · exact gives_unexpected

end Action

namespace Gesture

theorem gives_actions :
    Gives actionsReader fun actions => ∀ a ∈ actions, a.duration.IsWhole := by
  refine gives_of_rest fun c => ?_
  split
  · exact gives_array (Action.gives_isWhole 2)
  · exact gives_unexpected

/-- What was found of a gesture has whole durations. -/
def Found.IsWhole (f : Found) : Prop :=
  (∀ d ∈ f.delay, d.IsWhole) ∧ ∀ actions ∈ f.actions, ∀ a ∈ actions, a.duration.IsWhole

theorem member_isWhole (key : String) (f : Found) (hf : f.IsWhole) :
    ∀ r, member key f = .ok r → Gives r Found.IsWhole := by
  obtain ⟨hdelay, hactions⟩ := hf
  unfold member
  split
  · exact gives_once fun _ _ _ _ => ⟨hdelay, hactions⟩
  · refine gives_once fun text d rest hrun => ⟨?_, hactions⟩
    rintro _ ⟨⟩
    exact Duration.gives_isWhole text d rest hrun
  · refine gives_once fun text actions rest hrun => ⟨hdelay, ?_⟩
    rintro _ ⟨⟩
    exact gives_actions text actions rest hrun
  · rintro _ ⟨⟩
    exact gives_of_rest fun _ => gives_pure ⟨hdelay, hactions⟩

theorem forall_durations_iff {p : Duration → Prop} {g : Gesture} :
    (∀ d ∈ g.durations, p d) ↔ p g.delay ∧ ∀ a ∈ g.actions, p a.duration := by
  rw [durations, List.forall_mem_cons, List.forall_mem_map]

theorem gives_isWhole : Gives Gesture.reader fun g => ∀ d ∈ g.durations, d.IsWhole := by
  refine gives_of_rest fun c => ?_
  split
  · refine gives_of_rest fun _ => gives_of_rest fun start => ?_
    refine gives_bind (gives_item Duration.gives_isWhole) fun delay hdelay => ?_
    refine gives_bind (gives_item gives_actions) fun actions hactions => ?_
    exact gives_of_rest fun _ => gives_pure (forall_durations_iff.2 ⟨hdelay, hactions⟩)
  · refine gives_bind (gives_object member_isWhole ?_) fun f hf => gives_of_rest fun start => ?_
    · constructor <;> rintro _ ⟨⟩
    · refine gives_bind (gives_required hf.1) fun delay hdelay => ?_
      refine gives_bind (gives_required hf.2) fun actions hactions => ?_
      exact gives_pure (forall_durations_iff.2 ⟨hdelay, hactions⟩)
  · exact gives_unexpected

end Gesture

namespace Settings

theorem isWhole_default :
    (default : Settings).longPress.IsWhole ∧ (default : Settings).pressed.IsWhole :=
  ⟨.inr ⟨400, by decide, rfl⟩, .inr ⟨64, by decide, rfl⟩⟩

/-- The timings that were found are whole. -/
def Found.IsWhole (f : Found) : Prop := ∀ field, ∀ d ∈ f.get? field, d.IsWhole

theorem Found.get?_put (f : Found) (field other : Field) (d : Duration) :
    (f.put field d).get? other = if field = other then some d else f.get? other := by
  cases field <;> cases other <;> rfl

theorem Found.IsWhole.put {f : Found} (hf : f.IsWhole) (field : Field) {d : Duration}
    (hd : d.IsWhole) : (f.put field d).IsWhole := by
  intro other d' hd'
  rw [get?_put] at hd'
  split at hd'
  · cases hd'
    exact hd
  · exact hf other d' hd'

theorem member_isWhole (key : String) (f : Found) (hf : f.IsWhole) :
    ∀ r, member key f = .ok r → Gives r Found.IsWhole := by
  unfold member
  split
  · rename_i field _
    exact gives_once fun text d rest hrun => hf.put field (Duration.gives_isWhole text d rest hrun)
  · rintro _ ⟨⟩

theorem getD_isWhole {found : Option Duration} {d : Duration} (hfound : ∀ d ∈ found, d.IsWhole)
    (hd : d.IsWhole) : (found.getD d).IsWhole := by
  cases found with
  | none => exact hd
  | some d => exact hfound d rfl

theorem gives_isWhole :
    Gives Settings.reader fun s => s.longPress.IsWhole ∧ s.pressed.IsWhole := by
  refine gives_of_rest fun c => ?_
  split
  · refine gives_of_rest fun _ => ?_
    refine gives_bind (gives_itemOr isWhole_default.1 Duration.gives_isWhole) fun longPress hl => ?_
    refine gives_bind (gives_itemOr isWhole_default.2 Duration.gives_isWhole) fun pressed hp => ?_
    exact gives_of_rest fun _ => gives_pure ⟨hl, hp⟩
  · refine gives_bind (gives_object member_isWhole ?_) fun f hf => gives_pure ?_
    · rintro field d hd
      cases field <;> cases hd
    · exact ⟨getD_isWhole (hf .longPress) isWhole_default.1,
        getD_isWhole (hf .pressed) isWhole_default.2⟩
  · exact gives_unexpected

end Settings

namespace Document

/-! ## The types that stand in documents -/

/-- The types of values that stand in documents. -/
inductive Kind where
  | point
  | rect
  | direction
  | action
  | gesture
  | settings
  deriving DecidableEq, Repr

namespace Kind

/-- The values of a kind. -/
abbrev Value : Kind → Type
  | point => Point
  | rect => Rect
  | direction => Direction
  | action => Action
  | gesture => Gesture
  | settings => Settings

/-- A value as it is written. -/
def toJson : (k : Kind) → k.Value → Json
  | point => Point.toJson
  | rect => Rect.toJson
  | direction => Direction.toJson
  | action => Action.toJson
  | gesture => Gesture.toJson
  | settings => Settings.toJson

/-- The reader of a document that is one value. -/
def reader : (k : Kind) → Reader k.Value
  | point => Point.reader
  | rect => Rect.reader
  | direction => Direction.reader
  | action => Action.reader 0
  | gesture => Gesture.reader
  | settings => Settings.reader

/-- A value as a document keeps it. -/
def kept : (k : Kind) → k.Value → k.Value
  | point => id
  | rect => id
  | direction => id
  | action => Action.kept
  | gesture => Gesture.kept
  | settings => Settings.kept

/-- All durations of a value. -/
def durations : (k : Kind) → k.Value → List Duration
  | point, _ => []
  | rect, _ => []
  | direction, _ => []
  | action, a => [a.duration]
  | gesture, g => g.durations
  | settings, s => [s.longPress, s.pressed]

theorem reads {layout : Json.Layout} (hl : layout.AddsBlanks) (d : Nat) (k : Kind) (v : k.Value) :
    Reads k.reader (k.kept v) ((k.toJson v).render layout d) := by
  cases k with
  | point => exact Point.reads hl d v
  | rect => exact Rect.reads hl d v
  | direction => exact Direction.reads layout d v
  | action => exact Action.reads hl d (by decide) v
  | gesture => exact Gesture.reads hl d v
  | settings => exact Settings.reads hl d v

theorem kept_eq_self_iff (k : Kind) (v : k.Value) :
    k.kept v = v ↔ ∀ d ∈ k.durations v, d.IsWhole := by
  cases k with
  | point => simp [kept, durations]
  | rect => simp [kept, durations]
  | direction => simp [kept, durations]
  | action => simp [kept, durations, Action.kept_eq_self_iff]
  | gesture => exact Gesture.kept_eq_self_iff
  | settings => exact Settings.kept_eq_self_iff

theorem toJson_kept (k : Kind) (v : k.Value) : k.toJson (k.kept v) = k.toJson v := by
  cases k with
  | point => rfl
  | rect => rfl
  | direction => rfl
  | action => exact Action.toJson_kept v
  | gesture => exact Gesture.toJson_kept v
  | settings => exact Settings.toJson_kept v

theorem gives_isWhole (k : Kind) : Gives k.reader fun v => ∀ d ∈ k.durations v, d.IsWhole := by
  cases k with
  | point => exact fun _ _ _ _ d hd => nomatch hd
  | rect => exact fun _ _ _ _ d hd => nomatch hd
  | direction => exact fun _ _ _ _ d hd => nomatch hd
  | action =>
    intro text a rest hrun d hd
    rw [List.mem_singleton.1 hd]
    exact Action.gives_isWhole 0 text a rest hrun
  | gesture => exact Gesture.gives_isWhole
  | settings =>
    intro text s rest hrun d hd
    obtain ⟨hlongPress, hpressed⟩ := Settings.gives_isWhole text s rest hrun
    rcases List.mem_cons.1 hd with rfl | hd
    · exact hlongPress
    · rw [List.mem_singleton.1 hd]
      exact hpressed

theorem parse_compact_eq_kept (k : Kind) (v : k.Value) :
    k.reader.parse (k.toJson v).compact = .ok (k.kept v) :=
  (k.reads Json.Layout.addsBlanks_compact 0 v).parse

/-- **Writing and reading.**  What is read is what the document keeps.  It is the value itself
exactly if each of its durations is the longest one or a whole number of milliseconds below the
greatest number.  Writing what was read gives the same text, and a value that was read from any
text is not changed by being written and read again. -/
theorem parse_compact (k : Kind) (v : k.Value) :
    k.reader.parse (k.toJson v).compact = .ok (k.kept v) ∧
      (k.reader.parse (k.toJson v).compact = .ok v ↔
        ∀ d ∈ k.durations v, d = .longest ∨ ∃ m < Duration.greatestWritten, d = .ofMillis m) ∧
      (k.toJson (k.kept v)).compact = (k.toJson v).compact ∧
      ∀ text, k.reader.parse text = .ok v → k.reader.parse (k.toJson v).compact = .ok v := by
  have hread := k.parse_compact_eq_kept v
  refine ⟨hread, ?_, congrArg Json.compact (k.toJson_kept v), fun text htext => ?_⟩
  · rw [hread, Except.ok.injEq]
    exact k.kept_eq_self_iff v
  · rw [hread, (k.kept_eq_self_iff v).2 (k.gives_isWhole.parse htext)]

end Kind
end Document
end PointerMotion
