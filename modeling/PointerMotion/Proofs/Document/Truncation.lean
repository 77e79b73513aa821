import PointerMotion.Proofs.Document.RoundTrip
import PointerMotion.Proofs.Json.Truncation

/-!
# A document that ends too early is never taken for another one

For each type that stands in documents: if the text of a value is cut anywhere, its reader asks for
more, and gives neither a value nor another fault.

Coordinates and durations are the only parts that have no end of their own, and a cut leaves a
smaller number of them, which is a coordinate or a duration too.  So nothing is refused for its
value before the end of the text is met.  An action is taken apart only when all of it was read, and
by then the end was met.
-/

namespace PointerMotion

open Json (Layout Reader quote)
open Json.Reader

/-! ## Coordinates and durations -/

theorem Coord.exhausts (layout : Layout) (d : Nat) (c : Coord) :
    Exhausts Coord.reader (c.toJson.render layout d) := by
  refine exhausts_wanted_integer c.isWord_val fun m hle hsign => ?_
  have hlower := c.lower
  have hupper := c.upper
  exact ⟨⟨m, by omega, by omega⟩, ofInt?_eq_some_iff.2 rfl⟩

theorem Duration.exhausts (layout : Layout) (d : Nat) (t : Duration) :
    Exhausts Duration.reader (t.toJson.render layout d) := by
  refine exhausts_wanted_integer t.isWord_written fun m hle hsign => ?_
  have hwritten : t.written ≤ greatestWritten := Nat.min_le_right _ _
  rw [ofWritten?]
  split
  · exact ⟨_, rfl⟩
  · split
    · exact ⟨_, rfl⟩
    · omega

variable {layout : Layout} (hl : layout.AddsBlanks) (d : Nat)
include hl

/-! ## Geometry -/

theorem Point.starves (p : Point) : Starves Point.reader (p.toJson.render layout d) := by
  rw [toJson, Json.render_array, Layout.enclose_eq]
  refine starves_peek rfl fun cut hcut => ?_
  refine (bind_of_ok (discard_take_cons _ _)).trans ?_
  refine (item_cut hl (p.x.reads layout (d + 1)) (p.x.exhausts layout (d + 1)) hcut).bind
    (pending_ne_nil _ _ _ _ _) fun x rest hcut => ?_
  refine (item_cut hl (p.y.reads layout (d + 1)) (p.y.exhausts layout (d + 1)) hcut).bind
    (pending_ne_nil _ _ _ _ _) fun y rest hcut => ?_
  exact bind_of_error (punctuation_cut hl hcut)

theorem Rect.starves (r : Rect) : Starves Rect.reader (r.toJson.render layout d) := by
  rw [toJson, Json.render_object]
  refine starves_braces hl d rfl (r.collects layout (d + 1)) ?_
  simp only [List.map_cons, List.map_nil, List.forall_mem_cons]
  refine ⟨fun f => exhausts_once (r.left.exhausts layout (d + 1)),
    fun f => exhausts_once (r.top.exhausts layout (d + 1)),
    fun f => exhausts_once (r.right.exhausts layout (d + 1)),
    fun f => exhausts_once (r.bottom.exhausts layout (d + 1)), ?_⟩
  rintro m ⟨⟩

omit hl in
theorem Direction.starves (layout : Layout) (d : Nat) (direction : Direction) :
    Starves Direction.reader (direction.toJson.render layout d) :=
  starves_peek rfl fun _ hcut => bind_of_error (quoted_cut hcut.cons)

/-! ## Actions -/

namespace Action

omit hl in
theorem tagReader_starves (kind : Kind) : Starves tagReader (quote kind.tag) :=
  (starves_string kind.tag).bind _

/-- **An action that is cut anywhere is not finished**, wherever there is depth left for a point. -/
theorem starves {around : Nat} (h : around + 2 ≤ greatestDepth) (a : Action) :
    Starves (Action.reader around) (a.toJson.render layout d) := by
  obtain ⟨depth, hdepth⟩ : ∃ depth, greatestDepth - around - 1 = depth + 1 :=
    ⟨greatestDepth - around - 2, by omega⟩
  have hcollects := collects_values hl (d + 1) (a.fits_members depth) ⟨some a.kind, []⟩
  rw [toJson, Json.render_object, reader, hdepth]
  refine starves_braces hl d rfl (.cons rfl ((tagReader_reads a.kind).map _) hcollects) ?_
  refine List.forall_mem_cons.2 ⟨fun f => exhausts_once (tagReader_starves a.kind).exhausts, ?_⟩
  intro _ hmem f r hr
  obtain ⟨m, hm, rfl⟩ := List.mem_map.1 hmem
  obtain ⟨hkey, hfits⟩ := a.fits_members depth m hm
  rw [member_of_ne hkey] at hr
  cases hr
  exact (exhausts_value hl hfits (d + 1)).map _

end Action

/-! ## Gestures -/

namespace Gesture

theorem actionsReader_starves (actions : List Action) :
    Starves actionsReader ((Json.array (actions.map Action.toJson)).render layout d) := by
  have hdepth : 2 + 2 ≤ greatestDepth := by decide
  rw [Json.render_array, List.map_map, Layout.enclose_eq]
  refine starves_peek rfl fun cut hcut => array_cut hl (fun a _ => ?_) hcut
  exact ⟨a.kept, Action.reads hl (d + 1) hdepth a, (Action.starves hl (d + 1) hdepth a).exhausts⟩

/-- **A gesture that is cut anywhere is not finished.** -/
theorem starves (g : Gesture) : Starves Gesture.reader (g.toJson.render layout d) := by
  rw [toJson, Json.render_object]
  have hactions := actionsReader_reads hl (d + 1) g.actions
  refine starves_braces hl d rfl (collects hl (d + 1) g hactions) ?_
  simp only [List.map_cons, List.map_nil, List.forall_mem_cons]
  refine ⟨fun f => exhausts_once (g.start.starves hl (d + 1)).exhausts,
    fun f => exhausts_once (g.delay.exhausts layout (d + 1)),
    fun f => exhausts_once (actionsReader_starves hl (d + 1) g.actions).exhausts, ?_⟩
  rintro m ⟨⟩

end Gesture

/-! ## Settings -/

theorem Settings.starves (s : Settings) :
    Starves Settings.reader (s.toJson.render layout d) := by
  rw [toJson, Json.render_object]
  refine starves_braces hl d rfl (s.collects layout (d + 1)) ?_
  simp only [List.map_cons, List.map_nil, List.forall_mem_cons]
  refine ⟨fun f => exhausts_once (s.longPress.exhausts layout (d + 1)),
    fun f => exhausts_once (s.pressed.exhausts layout (d + 1)), ?_⟩
  rintro m ⟨⟩

/-! ## Whole documents -/

namespace Document.Kind

theorem starves (k : Kind) (v : k.Value) :
    Starves k.reader ((k.toJson v).render layout d) := by
  cases k with
  | point => exact Point.starves hl d v
  | rect => exact Rect.starves hl d v
  | direction => exact Direction.starves layout d v
  | action => exact Action.starves hl d (by decide) v
  | gesture => exact Gesture.starves hl d v
  | settings => exact Settings.starves hl d v

omit hl in
/-- **A document that ends too early is truncated, and nothing else.**  No proper prefix of the
compact text of a value is read as a value of its kind, be it this one or another, and none is
malformed or a mismatch. -/
theorem parse_of_isPrefix (k : Kind) (v : k.Value) {text : String}
    (hbegins : text.toList <+: (k.toJson v).compact.toList) (hne : text ≠ (k.toJson v).compact) :
    k.reader.parse text = .error .truncated := by
  obtain ⟨missing, hmissing⟩ := hbegins
  have hcut : IsCut text.toList ((k.toJson v).render .compact 0) := by
    rw [Json.compact, String.toList_ofList] at hmissing
    cases missing with
    | nil =>
      refine absurd ?_ hne
      rw [Json.compact, ← hmissing, List.append_nil, String.ofList_toList]
    | cons c missing => exact ⟨c, missing, hmissing.symm⟩
  have hparse := (k.starves Layout.addsBlanks_compact 0 v).parse hcut
  rwa [String.ofList_toList] at hparse

omit hl in
/-- An action that ends after a minus sign in one of the values that are kept until all of it was
read. -/
theorem parse_of_isPrefix_sign :
    let v : Action := .move ⟨0, 0⟩ ⟨5, .clamp (-7)⟩ (.ofMillis 300)
    let text : String := "\x7b\"action\":\"move\",\"from\":[0,0],\"to\":[5,-"
    text.toList <+: v.toJson.compact.toList ∧ text ≠ v.toJson.compact ∧
      (Action.reader 0).parse text = .error .truncated := by
  intro v text
  have hbegins : text.toList <+: v.toJson.compact.toList := by decide +kernel
  have hne : text ≠ v.toJson.compact := by decide +kernel
  exact ⟨hbegins, hne, parse_of_isPrefix .action v hbegins hne⟩

end Document.Kind
end PointerMotion
