import PointerMotion.Proofs.Document.RoundTrip
import PointerMotion.Proofs.Gesture.Building
import PointerMotion.Proofs.Gesture.TravelTime
import PointerMotion.Settings.Toml

/-!
# Gestures survive the hand-over

A gesture of the factory is handed over as a document, and what is read from it is the same
gesture, unless a move in it takes more milliseconds than a document can say.  Three kinds of
durations come together here.

1. The timings of the settings.  The defaults are whole durations, and so is whatever a TOML
   document says, because a timing is read there by the rule that is used for documents
   (`Settings.isWhole_ofToml`).
2. The waits of a request: timings of the settings, the rest of a pinch, or the time that was asked
   for.
3. The travel times, which are whole unless the move is overlong (`Duration.isWhole_travelTime`).

`Gesture.IsTimed` says of a gesture that it has no other durations.  A step that answers a request
keeps it, so every gesture of the factory has it, and what is left is to see what a document keeps
of each kind.
-/

namespace PointerMotion

/-! ## Timings read from TOML -/

namespace Settings

/-- A line of a TOML document adds a whole timing, or none. -/
theorem isWhole_withLine {f f' : Found} {line : List Char} (hf : f.IsWhole)
    (h : Toml.withLine f line = some f') : f'.IsWhole := by
  rw [Toml.withLine] at h
  split at h
  · cases h
    exact hf
  · simp only [Option.bind_eq_bind, Option.bind_eq_some_iff] at h
    obtain ⟨⟨key, n⟩, -, field, -, h⟩ := h
    split at h
    · cases h
    · obtain ⟨d, hd, hput⟩ := Option.bind_eq_some_iff.1 h
      cases hput
      exact hf.put field (Duration.isWhole_of_ofWritten? hd)

theorem isWhole_lines {lines : List (List Char)} {f f' : Found} (hf : f.IsWhole)
    (h : lines.foldlM Toml.withLine f = some f') : f'.IsWhole := by
  induction lines generalizing f with
  | nil =>
    cases h
    exact hf
  | cons line lines ih =>
    obtain ⟨f₁, hline, hlines⟩ := Option.bind_eq_some_iff.1 h
    exact ih (isWhole_withLine hf hline) hlines

/-- **The timings of a TOML document are whole.** -/
theorem isWhole_ofToml {text : String} {s : Settings} (h : ofToml text = .ok s) :
    s.longPress.IsWhole ∧ s.pressed.IsWhole := by
  rw [ofToml] at h
  split at h
  · rename_i f hlines
    cases h
    have hf : f.IsWhole := isWhole_lines (by rintro field d hd; cases field <;> cases hd) hlines
    exact ⟨getD_isWhole (hf .longPress) isWhole_default.1,
      getD_isWhole (hf .pressed) isWhole_default.2⟩
  · cases h

end Settings

/-! ## Gestures with known durations -/

namespace Action

/-- The action in another time. -/
def lasting (d : Duration) : Action → Action
  | pause point _ => pause point d
  | move origin target _ => move origin target d

/-- A wait for a whole duration, or a move that takes as long as its way does at the speed. -/
def IsTimed (speed? : Option UInt32) : Action → Prop
  | pause _ d => d.IsWhole
  | move origin target d =>
    ∃ speed ∈ speed?, d = (travelTime (origin.distance target) speed).value

/-- A move at a speed that is not zero, whose milliseconds are beyond the greatest number of a
document. -/
def IsOverlong (speed? : Option UInt32) : Action → Prop
  | pause .. => False
  | move origin target _ => ∃ speed ∈ speed?, OverlongTravel (origin.distance target) speed

instance (speed? : Option UInt32) (a : Action) : Decidable (a.IsOverlong speed?) :=
  match a, speed? with
  | pause .., _ => .isFalse id
  | move .., none => .isFalse fun ⟨_, h, _⟩ => nomatch h
  | move origin target _, some speed =>
    decidable_of_iff (OverlongTravel (origin.distance target) speed) (by simp [IsOverlong])

variable {speed? : Option UInt32} {a : Action}

theorem IsTimed.isWhole (h : a.IsTimed speed?) (hshort : ¬ a.IsOverlong speed?) :
    a.duration.IsWhole := by
  cases a with
  | pause point d => exact h
  | move origin target d =>
    obtain ⟨speed, hspeed, htime⟩ := h
    rw [duration, htime]
    exact Duration.isWhole_travelTime fun hlong => hshort ⟨speed, hspeed, hlong⟩

theorem IsTimed.duration_eq (h : a.IsTimed speed?) (hlong : a.IsOverlong speed?) :
    a.duration = .ofMillis Duration.greatestWritten := by
  cases a with
  | pause point d => cases hlong
  | move origin target d =>
    obtain ⟨speed, hspeed, htime⟩ := h
    obtain ⟨speed', hspeed', hlong⟩ := hlong
    obtain rfl : speed = speed' := Option.some.inj (hspeed.symm.trans hspeed')
    rw [duration, htime]
    exact Duration.travelTime_of_overlongTravel hlong

theorem kept_eq_lasting (a : Action) : a.kept = a.lasting a.duration.kept := by
  cases a <;> rfl

/-- What a document keeps: an overlong move becomes endless. -/
theorem IsTimed.kept (h : a.IsTimed speed?) :
    a.kept = if a.IsOverlong speed? then a.lasting .longest else a := by
  split
  · rename_i hlong
    rw [kept_eq_lasting, h.duration_eq hlong, Duration.kept_ofMillis_greatestWritten]
  · rename_i hshort
    exact kept_eq_self_iff.2 (h.isWhole hshort)

theorem IsTimed.isWhole_iff (h : a.IsTimed speed?) :
    a.duration.IsWhole ↔ ¬ a.IsOverlong speed? := by
  refine ⟨fun hwhole hlong => ?_, h.isWhole⟩
  have hkept := hwhole.kept
  rw [h.duration_eq hlong, Duration.kept_ofMillis_greatestWritten] at hkept
  exact Duration.ofMillis_greatestWritten_ne_longest hkept.symm

end Action

namespace Gesture

/-- The durations of a gesture are whole, but for the times of its moves, which are those of their
ways at the speed. -/
structure IsTimed (speed? : Option UInt32) (g : Gesture) : Prop where
  delay : g.delay.IsWhole
  actions : ∀ a ∈ g.actions, a.IsTimed speed?

variable {speed? : Option UInt32} {g : Gesture}

theorem isTimed_touch (start : Point) : (touch start).IsTimed speed? where
  delay := .inr ⟨0, by decide, rfl⟩
  actions := by rintro a ⟨⟩

theorem IsTimed.append (h : g.IsTimed speed?) {a : Action} (ha : a.IsTimed speed?) :
    (g.append a).IsTimed speed? where
  delay := h.delay
  actions := by
    intro b hb
    rcases List.mem_append.1 hb with hb | hb
    · exact h.actions b hb
    · rw [List.mem_singleton.1 hb]
      exact ha

end Gesture

namespace Factory

open Gesture

variable {f : Factory} {request : Request}

/-- The settings of a factory are the default ones, or those of a TOML document. -/
def IsConfigured (f : Factory) : Prop :=
  f.settings = default ∨ ∃ text, Settings.ofToml text = .ok f.settings

/-- The time that a request asks for, if it does, is a whole duration. -/
def Request.IsWhole : Request → Prop
  | .clickFor _ d => d.IsWhole
  | _ => True

theorem isWhole_settings (hf : f.IsConfigured) :
    f.settings.longPress.IsWhole ∧ f.settings.pressed.IsWhole := by
  rcases hf with hdefault | ⟨text, htoml⟩
  · rw [hdefault]
    exact Settings.isWhole_default
  · exact Settings.isWhole_ofToml htoml

/-- All waits of a request are whole. -/
theorem isWhole_waits (hf : f.IsConfigured) (hrequest : request.IsWhole) :
    ∀ d ∈ f.waits request, d.IsWhole := by
  obtain ⟨hlongPress, hpressed⟩ := isWhole_settings hf
  have hrest : pinchRest.IsWhole := .inr ⟨250, by decide, rfl⟩
  cases request with
  | clickFor point d => exact List.forall_mem_singleton.2 hrequest
  | longClick point => exact List.forall_mem_singleton.2 hlongPress
  | drag start finish speed => exact List.forall_mem_singleton.2 hlongPress
  | click point => exact List.forall_mem_singleton.2 hpressed
  | swipe start finish speed => exact List.forall_mem_singleton.2 hpressed
  | swipeOver area direction percent speed => exact List.forall_mem_singleton.2 hpressed
  | pinchOpen area percent speed => exact List.forall_mem_singleton.2 hpressed
  | pinchClose area percent speed =>
    exact List.forall_mem_cons.2 ⟨hpressed, List.forall_mem_singleton.2 hrest⟩

/-- A step that answers a request keeps to whole durations and times of moves. -/
theorem Answers.isTimed_step (hwaits : ∀ d ∈ f.waits request, d.IsWhole) {s : Step}
    (hs : f.Answers request s) {g : Gesture} (h : g.IsTimed request.speed?) :
    (g.step s).value.IsTimed request.speed? := by
  cases s with
  | pause d => exact h.append (hwaits d hs)
  | moveTo target d => cases hs
  | moveAtSpeed target speed => exact h.append ⟨speed, hs, rfl⟩

theorem Answers.isTimed_build (hwaits : ∀ d ∈ f.waits request, d.IsWhole) {steps : List Step}
    (hsteps : ∀ s ∈ steps, f.Answers request s) {g : Gesture} (h : g.IsTimed request.speed?) :
    (g.build steps).IsTimed request.speed? := by
  induction steps generalizing g with
  | nil => exact h
  | cons s steps ih =>
    obtain ⟨hfirst, hrest⟩ := List.forall_mem_cons.1 hsteps
    exact ih hrest (Answers.isTimed_step hwaits hfirst h)

/-- **Every gesture of the factory has known durations.** -/
theorem isTimed_of_perform (hf : f.IsConfigured) (hrequest : request.IsWhole)
    {gestures : List Gesture} (h : (f.perform request).outcome = .ok gestures) :
    ∀ g ∈ gestures, g.IsTimed request.speed? := by
  intro g hg
  obtain ⟨start, steps, rfl, hsteps⟩ := f.exists_eq_build_answers h g hg
  exact Answers.isTimed_build (isWhole_waits hf hrequest) hsteps (isTimed_touch start)

/-- What is read from the document of a gesture that answers a request: the gesture itself, but
for its overlong moves, which have become endless. -/
def Request.handedOver (request : Request) (g : Gesture) : Gesture :=
  { g with actions := g.actions.map fun a =>
      if a.IsOverlong request.speed? then a.lasting .longest else a }

theorem kept_eq_handedOver {g : Gesture} (h : g.IsTimed request.speed?) :
    g.kept = request.handedOver g := by
  rw [Gesture.kept, h.delay.kept, Request.handedOver]
  congr 1
  exact List.map_congr_left fun a ha => (h.actions a ha).kept

/-- **Gestures survive the hand-over.**  The settings are the default ones or those of a TOML
document, and a time that is asked for is the longest duration or a whole number of milliseconds
below the greatest number.  Then of every gesture that answers a request:

* what is read from its document is the gesture, but for its overlong moves, and these have become
  endless;
* the gesture itself is read exactly if no move is overlong;
* the time of an overlong move is written as the greatest number;
* at speed zero, the gesture itself is read. -/
theorem parse_compact_perform (hf : f.IsConfigured) (hrequest : request.IsWhole)
    {gestures : List Gesture} (h : (f.perform request).outcome = .ok gestures) :
    ∀ g ∈ gestures,
      Gesture.reader.parse g.toJson.compact = .ok (request.handedOver g) ∧
        (Gesture.reader.parse g.toJson.compact = .ok g ↔
          ∀ a ∈ g.actions, ¬ a.IsOverlong request.speed?) ∧
        (∀ a ∈ g.actions, a.IsOverlong request.speed? →
          a.duration.toJson = .integer 18446744073709551615) ∧
        (request.speed? = some 0 → Gesture.reader.parse g.toJson.compact = .ok g) := by
  intro g hg
  have htimed := isTimed_of_perform hf hrequest h g hg
  have hread : Gesture.reader.parse g.toJson.compact = .ok g.kept :=
    Document.Kind.parse_compact_eq_kept .gesture g
  have hself : Gesture.reader.parse g.toJson.compact = .ok g ↔
      ∀ a ∈ g.actions, ¬ a.IsOverlong request.speed? := by
    rw [hread, Except.ok.injEq, Gesture.kept_eq_self_iff, forall_durations_iff]
    exact ⟨fun hall a ha => (htimed.actions a ha).isWhole_iff.1 (hall.2 a ha),
      fun hall => ⟨htimed.delay, fun a ha => (htimed.actions a ha).isWhole (hall a ha)⟩⟩
  refine ⟨?_, hself, ?_, ?_⟩
  · rw [hread, kept_eq_handedOver htimed]
  · intro a ha hlong
    rw [Duration.toJson, (htimed.actions a ha).duration_eq hlong,
      Duration.written_ofMillis_greatestWritten]
    rfl
  · intro hzero
    refine hself.2 fun a _ hlong => ?_
    cases a with
    | pause point d => exact hlong
    | move origin target d =>
      obtain ⟨speed, hspeed, hne, -⟩ := hlong
      exact hne (Option.some.inj (hspeed.symm.trans hzero))

/-- A swipe over the whole range, at one pixel per second, takes too many milliseconds. -/
theorem parse_compact_perform_widest :
    let f : Factory := {}
    let request : Request :=
      .swipe ⟨.clamp (-9223372036854775808), 0⟩ ⟨.clamp 9223372036854775807, 0⟩ 1
    f.IsConfigured ∧ request.IsWhole ∧ ∃ g, (f.perform request).outcome = .ok [g] ∧
      (∃ a ∈ g.actions, a.IsOverlong request.speed?) ∧
        Gesture.reader.parse g.toJson.compact = .ok (request.handedOver g) ∧
          Gesture.reader.parse g.toJson.compact ≠ .ok g := by
  intro f request
  have hf : f.IsConfigured := .inl rfl
  have hlong : OverlongTravel
      (Point.distance ⟨.clamp (-9223372036854775808), 0⟩ ⟨.clamp 9223372036854775807, 0⟩) 1 := by
    decide +kernel
  have hrequest : request.IsWhole := trivial
  obtain ⟨hread, hself, -⟩ :=
    parse_compact_perform hf hrequest rfl _ (List.mem_singleton.2 rfl)
  have hmove : ∃ a ∈ (f.swipe ⟨.clamp (-9223372036854775808), 0⟩
      ⟨.clamp 9223372036854775807, 0⟩ 1).value.actions, a.IsOverlong request.speed? :=
    ⟨_, List.mem_cons_of_mem _ List.mem_cons_self, 1, rfl, hlong⟩
  refine ⟨hf, hrequest, _, rfl, hmove, hread, fun hsame => ?_⟩
  obtain ⟨a, ha, hoverlong⟩ := hmove
  exact hself.1 hsame a ha hoverlong

end Factory
end PointerMotion
