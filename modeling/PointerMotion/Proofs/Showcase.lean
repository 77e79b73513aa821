import PointerMotion.Proofs.Document.Sorted
import PointerMotion.Proofs.Factory.HandOver
import PointerMotion.Showcase

/-!
# The showcase shows what the factory makes

The report is meant for people, but nothing is lost in it.  It is one JSON value, with the keys of
every object in increasing order, and what is read from its parts are the gestures of the factory
themselves.

Three things come together for this.  The members of the gestures are not in the order in which
gestures are written elsewhere, and are read all the same.  The timings are whole durations, as
they were read from a document or are the default ones.  And none of the ways over the area is
so long that its time could not be written.
-/

namespace PointerMotion

open Json (Layout Reader)
open Json.Reader

/-- The value is read as `a`, however it is set out. -/
def Json.StandsFor {α : Type} (r : Reader α) (v : Json) (a : α) : Prop :=
  ∀ layout : Layout, layout.AddsBlanks → ∀ d, Reads r a (v.render layout d)

theorem Traced.exists_outcome_mapM {α β : Type} {f : α → Traced β} {p : α → β → Prop}
    (xs : List α) (h : ∀ x ∈ xs, ∃ y, (f x).outcome = .ok y ∧ p x y) :
    ∃ ys, (xs.mapM f).outcome = .ok ys ∧ List.Forall₂ p xs ys := by
  induction xs with
  | nil => exact ⟨[], by rw [List.mapM_nil]; rfl, .nil⟩
  | cons x xs ih =>
    obtain ⟨⟨y, hy, hp⟩, h⟩ := List.forall_mem_cons.1 h
    obtain ⟨ys, hys, hps⟩ := ih h
    refine ⟨y :: ys, ?_, .cons hp hps⟩
    rw [List.mapM_cons, outcome_bind, hy]
    show ((xs.mapM f) >>= _).outcome = _
    rw [outcome_bind, hys]
    rfl

/-! ## Gestures of whole durations -/

namespace Gesture

/-- A document of the gesture loses nothing. -/
def IsWhole (g : Gesture) : Prop := ∀ d ∈ g.durations, d.IsWhole

theorem isWhole_touch (start : Point) : (touch start).IsWhole :=
  List.forall_mem_singleton.2 (.inr ⟨0, by decide, rfl⟩)

variable {g : Gesture}

theorem IsWhole.append (h : g.IsWhole) {a : Action} (ha : a.duration.IsWhole) :
    (g.append a).IsWhole := by
  rw [IsWhole, forall_durations_iff] at h ⊢
  exact ⟨h.1, List.forall_mem_append.2 ⟨h.2, List.forall_mem_singleton.2 ha⟩⟩

theorem IsWhole.pause (h : g.IsWhole) {d : Duration} (hd : d.IsWhole) : (g.pause d).IsWhole :=
  h.append hd

theorem IsWhole.moveTo (h : g.IsWhole) (target : Point) {d : Duration} (hd : d.IsWhole) :
    (g.moveTo target d).IsWhole :=
  h.append hd

/-- A move that is not overlong takes a whole duration. -/
theorem IsWhole.moveAtSpeed (h : g.IsWhole) {target : Point} {speed : UInt32}
    (hshort : ¬ OverlongTravel (g.finish.distance target) speed) :
    (g.moveAtSpeed target speed).value.IsWhole := by
  rw [Gesture.moveAtSpeed, Logged.value_bind, Logged.value_pure]
  exact h.moveTo target (Duration.isWhole_travelTime hshort)

/-- A gesture of whole durations is what is read from its document, with the keys in order. -/
theorem IsWhole.standsFor_sorted (h : g.IsWhole) :
    g.toJson.sorted.StandsFor Gesture.reader g := by
  have hkept : g.kept = g := kept_eq_self_iff.2 h
  intro layout hl d
  have hreads := g.reads_sorted hl d
  rwa [hkept] at hreads

end Gesture

namespace Showcase

/-- The value is an array of two gestures. -/
def ShowsPair (gestures : Gesture × Gesture) (v : Json) : Prop :=
  ∃ v₁ v₂ : Json, v = .array [v₁, v₂] ∧ v₁.StandsFor Gesture.reader gestures.1 ∧
    v₂.StandsFor Gesture.reader gestures.2

/-- The value is an object with the name of a direction and the swipe of a factory. -/
def ShowsSwipe (f : Factory) (direction : Direction) (v : Json) : Prop :=
  ∃ (g : Gesture) (w : Json),
    (f.swipeOver area direction swipePercent speed).outcome = .ok g ∧
      v = .object [("direction", .string direction.name), ("gesture", w)] ∧
        w.StandsFor Gesture.reader g

/-- **The value shows the gestures of a factory** over the sample area. -/
inductive Shows (f : Factory) : Json → Prop where
  | intro {center : Point} {y : Coord} {close opening : Gesture × Gesture}
      {vArea vClick vLongClick vDrag vClose vOpening : Json} {swipes : List Json}
      (hcenter : area.center = .ok center) (hy : area.top.add dragMargin = .ok y)
      (hclose : (f.pinchClose area pinchPercent speed).outcome = .ok close)
      (hopening : (f.pinchOpen area pinchPercent speed).outcome = .ok opening)
      (showsArea : vArea.StandsFor Rect.reader area)
      (showsClick : vClick.StandsFor Gesture.reader (f.click center))
      (showsLongClick : vLongClick.StandsFor Gesture.reader (f.longClick center))
      (showsDrag : vDrag.StandsFor Gesture.reader (f.drag center ⟨center.x, y⟩ speed).value)
      (showsSwipes : List.Forall₂ (ShowsSwipe f) Direction.all swipes)
      (showsClose : ShowsPair close vClose) (showsOpening : ShowsPair opening vOpening) :
      Shows f (.object [("area", vArea), ("click", vClick), ("drag", vDrag),
        ("long_click", vLongClick), ("pinch_close", vClose), ("pinch_open", vOpening),
        ("swipe_rect", .array swipes)])

/-- **The text is the report for some settings**: a value with increasing keys, set out with
indentation, that shows what the factory with these settings makes. -/
def IsReport (s : Settings) (output : String) : Prop :=
  ∃ v : Json, output = v.pretty ++ "\n" ∧ Json.IsValue v.pretty.toList ∧
    (value greatestDepth).parse v.pretty = .ok v ∧ v.HasIncreasingKeys ∧ Shows ⟨s⟩ v

/-- The parts of the report in the order of their keys. -/
theorem byKey_parts (vArea vClick vLongClick vDrag vSwipes vClose vOpening : Json) :
    Json.byKey [("area", vArea), ("click", vClick), ("long_click", vLongClick), ("drag", vDrag),
        ("swipe_rect", vSwipes), ("pinch_close", vClose), ("pinch_open", vOpening)] =
      [("area", vArea), ("click", vClick), ("drag", vDrag), ("long_click", vLongClick),
        ("pinch_close", vClose), ("pinch_open", vOpening), ("swipe_rect", vSwipes)] := by
  simp [Json.byKey, List.mergeSort]

/-! ## The ways over the area -/

theorem center_area : area.center = .ok ⟨540, 960⟩ := by decide

theorem dragEnd_area : area.top.add dragMargin = .ok 100 := by decide

/-- The swipes go over the area in reasonable time. -/
theorem exists_swipeEnds (direction : Direction) : ∃ p q,
    area.swipeEnds direction swipePercent = .ok (p, q) ∧
      ¬ OverlongTravel (p.distance q) speed := by
  cases direction with
  | left => exact ⟨⟨1080, 960⟩, ⟨216, 960⟩, by decide +kernel⟩
  | right => exact ⟨⟨0, 960⟩, ⟨864, 960⟩, by decide +kernel⟩
  | up => exact ⟨⟨540, 1920⟩, ⟨540, 384⟩, by decide +kernel⟩
  | down => exact ⟨⟨540, 0⟩, ⟨540, 1536⟩, by decide +kernel⟩

/-- So do the fingers of a pinch, in either direction. -/
theorem exists_pinchPath : ∃ path, PinchPath.over area pinchPercent = .ok path ∧
    ∀ way ∈ [path.bottomLeft, path.topRight],
      ¬ OverlongTravel (way.outer.distance way.inner) speed ∧
        ¬ OverlongTravel (way.inner.distance way.outer) speed :=
  ⟨⟨⟨⟨5, 1915⟩, ⟨406, 1199⟩⟩, ⟨⟨1075, 5⟩, ⟨674, 721⟩⟩⟩, by decide +kernel⟩

theorem not_overlongTravel_drag :
    ¬ OverlongTravel (Point.distance ⟨540, 960⟩ ⟨540, 100⟩) speed := by
  decide +kernel

/-! ## The parts of the report -/

variable {f : Factory} (hf : f.IsConfigured)
include hf

theorem isWhole_click (point : Point) : (f.click point).IsWhole :=
  (Gesture.isWhole_touch point).pause (Factory.isWhole_settings hf).2

theorem isWhole_longClick (point : Point) : (f.longClick point).IsWhole :=
  (Gesture.isWhole_touch point).pause (Factory.isWhole_settings hf).1

theorem isWhole_swipe {p q : Point} {speed : UInt32} (h : ¬ OverlongTravel (p.distance q) speed) :
    (f.swipe p q speed).value.IsWhole :=
  (isWhole_click hf p).moveAtSpeed h

theorem isWhole_drag {p q : Point} {speed : UInt32} (h : ¬ OverlongTravel (p.distance q) speed) :
    (f.drag p q speed).value.IsWhole :=
  (isWhole_longClick hf p).moveAtSpeed h

theorem exists_swipeOver (direction : Direction) : ∃ g : Gesture,
    (f.swipeOver area direction swipePercent speed).outcome = .ok g ∧ g.IsWhole := by
  obtain ⟨p, q, hends, hshort⟩ := exists_swipeEnds direction
  refine ⟨(f.swipe p q speed).value, ?_, isWhole_swipe hf hshort⟩
  rw [f.swipeOver_outcome, hends]
  rfl

theorem exists_pinchClose : ∃ gestures : Gesture × Gesture,
    (f.pinchClose area pinchPercent speed).outcome = .ok gestures ∧
      gestures.1.IsWhole ∧ gestures.2.IsWhole := by
  obtain ⟨path, hpath, hshort⟩ := exists_pinchPath
  rw [f.pinchClose_outcome, hpath]
  have hrest : Factory.pinchRest.IsWhole := .inr ⟨250, by decide, rfl⟩
  refine ⟨(_, _), rfl, ?_, ?_⟩
  · exact (isWhole_swipe hf (hshort path.bottomLeft (by simp)).1).pause hrest
  · exact (isWhole_swipe hf (hshort path.topRight (by simp)).1).pause hrest

theorem exists_pinchOpen : ∃ gestures : Gesture × Gesture,
    (f.pinchOpen area pinchPercent speed).outcome = .ok gestures ∧
      gestures.1.IsWhole ∧ gestures.2.IsWhole := by
  obtain ⟨path, hpath, hshort⟩ := exists_pinchPath
  rw [f.pinchOpen_outcome, hpath]
  have hbottomLeft := isWhole_swipe hf (hshort path.bottomLeft (by simp)).2
  have htopRight := isWhole_swipe hf (hshort path.topRight (by simp)).2
  exact ⟨(_, _), rfl, hbottomLeft, htopRight⟩

/-- What is described of a swipe, before its keys are put in order. -/
def Describes (f : Factory) (direction : Direction) (v : Json) : Prop :=
  ∃ g : Gesture, (f.swipeOver area direction swipePercent speed).outcome = .ok g ∧ g.IsWhole ∧
    v = .object [("direction", direction.toJson), ("gesture", g.toJson)]

theorem exists_swipe (direction : Direction) :
    ∃ v, (swipe f direction).outcome = .ok v ∧ Describes f direction v := by
  obtain ⟨g, hg, hwhole⟩ := exists_swipeOver hf direction
  refine ⟨_, ?_, g, hg, hwhole, rfl⟩
  rw [swipe, Traced.outcome_bind, hg]
  rfl

section

omit hf

variable {direction : Direction} {v : Json} {gestures : Gesture × Gesture}

theorem Describes.hasDistinctKeys (h : Describes f direction v) : v.HasDistinctKeys := by
  obtain ⟨g, -, -, rfl⟩ := h
  refine .object (by simp) (List.forall_mem_cons.2 ⟨.string _, ?_⟩)
  exact List.forall_mem_singleton.2 g.hasDistinctKeys_toJson

theorem Describes.fits (h : Describes f direction v) : v.Fits 5 := by
  obtain ⟨g, -, -, rfl⟩ := h
  exact List.forall_mem_cons.2 ⟨trivial, List.forall_mem_singleton.2 (g.fits_toJson 0)⟩

theorem Describes.showsSwipe (h : Describes f direction v) : ShowsSwipe f direction v.sorted := by
  obtain ⟨g, hg, hwhole, rfl⟩ := h
  have hkeys (vDirection vGesture : Json) :
      Json.byKey [("direction", vDirection), ("gesture", vGesture)] =
        [("direction", vDirection), ("gesture", vGesture)] := by
    simp [Json.byKey, List.mergeSort]
  refine ⟨g, g.toJson.sorted, hg, ?_, hwhole.standsFor_sorted⟩
  rw [Json.sorted_object]
  exact congrArg Json.object (hkeys _ _)

theorem hasDistinctKeys_pair : (pair gestures).HasDistinctKeys :=
  .array (List.forall_mem_cons.2 ⟨gestures.1.hasDistinctKeys_toJson,
    List.forall_mem_singleton.2 gestures.2.hasDistinctKeys_toJson⟩)

theorem fits_pair : (pair gestures).Fits 5 :=
  List.forall_mem_cons.2 ⟨gestures.1.fits_toJson 0,
    List.forall_mem_singleton.2 (gestures.2.fits_toJson 0)⟩

theorem showsPair (h : gestures.1.IsWhole ∧ gestures.2.IsWhole) :
    ShowsPair gestures (pair gestures).sorted := by
  refine ⟨_, _, ?_, h.1.standsFor_sorted, h.2.standsFor_sorted⟩
  rw [pair, Json.sorted_array]
  rfl

end

/-- The description of a configured factory. -/
theorem exists_description : ∃ v, (description f).outcome = .ok v ∧ v.HasDistinctKeys ∧
    v.Fits 7 ∧ Shows f v.sorted := by
  obtain ⟨swipes, hswipes, hdescribes⟩ := Traced.exists_outcome_mapM Direction.all
    fun direction _ => exists_swipe hf direction
  obtain ⟨close, hclose, hcloseWhole⟩ := exists_pinchClose hf
  obtain ⟨opening, hopening, hopeningWhole⟩ := exists_pinchOpen hf
  have hdrag := isWhole_drag hf not_overlongTravel_drag
  have houtcome : (description f).outcome = .ok (.object [
      ("area", area.toJson),
      ("click", (f.click ⟨540, 960⟩).toJson),
      ("long_click", (f.longClick ⟨540, 960⟩).toJson),
      ("drag", (f.drag ⟨540, 960⟩ ⟨540, 100⟩ speed).value.toJson),
      ("swipe_rect", .array swipes),
      ("pinch_close", pair close),
      ("pinch_open", pair opening)]) := by
    simp only [description, Traced.outcome_bind, Traced.lift_except, Traced.lift_logged,
      center_area, dragEnd_area, hswipes, hclose, hopening, Except.bind, Traced.pure_def]
  have hall : ∀ v ∈ swipes, v.HasDistinctKeys ∧ v.Fits 5 :=
    ((List.forall₂_and_left (R := fun _ _ => True) _ _).1
      (hdescribes.flip.imp fun _ _ h =>
        ⟨⟨Describes.hasDistinctKeys h, Describes.fits h⟩, trivial⟩)).1
  refine ⟨_, houtcome, .object (by simp) ?_, ?_, ?_⟩
  · simp only [List.forall_mem_cons]
    exact ⟨area.hasDistinctKeys_toJson, Gesture.hasDistinctKeys_toJson _,
      Gesture.hasDistinctKeys_toJson _, Gesture.hasDistinctKeys_toJson _,
      .array fun v hv => (hall v hv).1, hasDistinctKeys_pair, hasDistinctKeys_pair,
      List.forall_mem_nil _⟩
  · simp only [Json.Fits, List.forall_mem_cons]
    exact ⟨area.fits_toJson 5, Gesture.fits_toJson _ 2, Gesture.fits_toJson _ 2,
      Gesture.fits_toJson _ 2, fun v hv => (hall v hv).2, fits_pair.mono (by decide),
      fits_pair.mono (by decide), List.forall_mem_nil _⟩
  · rw [Json.sorted_object]
    simp only [List.map_cons, List.map_nil, Json.sorted_array]
    rw [byKey_parts]
    refine .intro center_area dragEnd_area hclose hopening
      (fun layout hl d => area.reads_sorted hl d) (isWhole_click hf _).standsFor_sorted
      (isWhole_longClick hf _).standsFor_sorted hdrag.standsFor_sorted ?_
      (showsPair hcloseWhole) (showsPair hopeningWhole)
    exact List.forall₂_map_right_iff.2 (hdescribes.imp fun _ _ h => h.showsSwipe)

/-! ## The report -/

omit hf in
/-- For settings that a factory may have, there is a report. -/
theorem exists_report_eq_ok {source : Source} {s : Settings} (hsettings : source.settings = .ok s)
    (hs : Factory.IsConfigured ⟨s⟩) : ∃ output, report source = .ok output ∧ IsReport s output := by
  obtain ⟨v, hv, hkeys, hfits, hshows⟩ := exists_description hs
  have hread := reads_value Json.Layout.addsBlanks_indented
    (hfits.sorted.mono (show 7 ≤ greatestDepth by decide)) 0
  have hreport : report source = .ok (v.sorted.pretty ++ "\n") := by
    simp only [report, hsettings, hv]
  refine ⟨_, hreport, v.sorted, rfl, ?_, hread.parse, Json.hasIncreasingKeys_sorted hkeys, hshows⟩
  rw [Json.pretty, String.toList_ofList]
  exact Json.isValue_render Json.Layout.addsBlanks_indented 0 v.sorted

omit hf in
theorem report_eq_error {source : Source} {e : Settings.Failure}
    (hsettings : source.settings = .error e) : report source = .error (.settings e) := by
  rw [report, hsettings]

omit hf in
/-- **The report shows what the factory makes**: without a document, for the default settings, and
with one, for the settings that its text stands for.  If the text stands for none, or there is no
text, there is no report. -/
theorem report_shows :
    (∃ output, report .default = .ok output ∧ IsReport {} output) ∧
    (∀ text, match Settings.ofToml text with
      | .ok s => ∃ output, report (.document text) = .ok output ∧ IsReport s output
      | .error e => report (.document text) = .error (.settings e)) ∧
    ∀ path, report (.missing path) = .error (.settings (.unreadable path)) := by
  refine ⟨exists_report_eq_ok rfl (.inl rfl), fun text => ?_, fun path => report_eq_error rfl⟩
  split
  · rename_i s hs
    exact exists_report_eq_ok hs (.inr ⟨text, hs⟩)
  · rename_i e he
    exact report_eq_error he

end Showcase
end PointerMotion
