import PointerMotion.Proofs.Document.Kept
import PointerMotion.Proofs.Json.Value

/-!
# Documents are read as they are written

For each type that stands in documents: its reader reads the text of a value, in any layout that
adds blanks only, as the value that the document keeps.

Values with a fixed number of parts are read part by part.  Objects need one thing each: what
their members amount to in the order in which they are written, which is a chain of `Collects`.
An action is the exception, as its members are kept as JSON values and taken apart when all of it
was read; so what its members *are* comes first (`ofMembers?_members`), and the reading of them
is that of any value.
-/

namespace PointerMotion

open Json (Layout Reader Fits quote)
open Json.Reader

/-! ## Coordinates and durations -/

theorem Coord.isWord_val (c : Coord) : IsWord c.val := by
  have := c.lower
  have := c.upper
  exact ⟨by omega, by omega⟩

theorem Coord.reads (layout : Layout) (d : Nat) (c : Coord) :
    Reads Coord.reader c (c.toJson.render layout d) :=
  reads_wanted (reads_integer c.isWord_val) (Coord.ofInt?_val c)

theorem Duration.isWord_written (t : Duration) : IsWord t.written := by
  have : t.written ≤ 18446744073709551615 := Nat.min_le_right _ _
  exact ⟨by omega, by omega⟩

theorem Duration.reads (layout : Layout) (d : Nat) (t : Duration) :
    Reads Duration.reader t.kept (t.toJson.render layout d) :=
  reads_wanted (reads_integer t.isWord_written) t.ofWritten?_written

variable {layout : Layout} (hl : layout.AddsBlanks) (d : Nat)
include hl

/-! ## Geometry -/

theorem Point.reads (p : Point) : Reads Point.reader p (p.toJson.render layout d) := by
  rw [toJson, Json.render_array, Layout.enclose_eq]
  refine reads_peek rfl (by decide) fun rest _ => ?_
  refine (bind_of_ok (discard_take_cons _ _)).trans ?_
  refine (bind_of_ok (item_pending hl (p.x.reads layout (d + 1)) d true _ rest)).trans ?_
  refine (bind_of_ok (item_pending hl (p.y.reads layout (d + 1)) d false _ rest)).trans ?_
  exact bind_of_ok (punctuation_pending_nil hl d rfl rest)

omit hl in
theorem Rect.collects (layout : Layout) (d : Nat) (r : Rect) :
    Collects Rect.member {}
      [("left", r.left.toJson.render layout d), ("top", r.top.toJson.render layout d),
        ("right", r.right.toJson.render layout d), ("bottom", r.bottom.toJson.render layout d)]
      ⟨some r.left, some r.top, some r.right, some r.bottom⟩ := by
  refine .cons rfl ((r.left.reads layout d).map _) ?_
  refine .cons rfl ((r.top.reads layout d).map _) ?_
  refine .cons rfl ((r.right.reads layout d).map _) ?_
  refine .cons rfl ((r.bottom.reads layout d).map _) ?_
  exact .nil _

theorem Rect.reads (r : Rect) : Reads Rect.reader r (r.toJson.render layout d) := by
  rw [toJson, Json.render_object]
  exact reads_braces hl d rfl (r.collects layout (d + 1)) fun rest => rfl

omit hl in
theorem Direction.reads (layout : Layout) (d : Nat) (direction : Direction) :
    Reads Direction.reader direction (direction.toJson.render layout d) := by
  refine reads_peek rfl (by decide) fun rest _ => ?_
  refine (bind_of_ok (quoted_quote direction.name rest)).trans ?_
  rw [ofName?_name]
  rfl

/-! ## Actions -/

omit hl in
theorem Coord.ofJson?_toJson (c : Coord) : Coord.ofJson? c.toJson = some c := Coord.ofInt?_val c

omit hl in
theorem Point.ofJson?_toJson (p : Point) : Point.ofJson? p.toJson = some p := by
  rw [toJson, ofJson?, Coord.ofJson?_toJson, Coord.ofJson?_toJson]
  rfl

omit hl in
theorem Duration.ofJson?_toJson (t : Duration) : Duration.ofJson? t.toJson = some t.kept :=
  t.ofWritten?_written

omit hl in
theorem Point.fits_toJson (p : Point) (depth : Nat) : p.toJson.Fits (depth + 1) := by
  intro v hv
  simp only [List.mem_cons, List.not_mem_nil, or_false] at hv
  rcases hv with rfl | rfl
  · exact (Json.fits_integer depth _).2 p.x.isWord_val
  · exact (Json.fits_integer depth _).2 p.y.isWord_val

omit hl in
theorem Duration.fits_toJson (t : Duration) (depth : Nat) : t.toJson.Fits depth :=
  (Json.fits_integer depth _).2 t.isWord_written

namespace Action

omit hl in
theorem Kind.ofTag?_tag (kind : Kind) : Kind.ofTag? kind.tag = some kind := by
  cases kind <;> decide

omit hl in
/-- The key of the tag is no other key. -/
theorem Kind.not_mem_keys (kind : Kind) : "action" ∉ kind.keys := by
  cases kind <;> decide

omit hl in
theorem tagReader_reads (kind : Kind) : Reads tagReader kind (quote kind.tag) :=
  reads_wanted (reads_string kind.tag) kind.ofTag?_tag

omit hl in
theorem ofValues?_values (a : Action) : ofValues? a.kind a.values = some a.kept := by
  cases a with
  | pause point t =>
    rw [kind, values, ofValues?, Point.ofJson?_toJson, Duration.ofJson?_toJson]
    rfl
  | move origin target t =>
    rw [kind, values, ofValues?, Point.ofJson?_toJson, Point.ofJson?_toJson,
      Duration.ofJson?_toJson]
    rfl

omit hl in
/-- The members of an action are those of its kind, and stand for the action. -/
theorem ofMembers?_members (a : Action) :
    ofMembers? a.kind (a.kind.keys.zip a.values) = some a.kept := by
  have hvalues : (a.kind.keys.mapM fun key => Json.only? key (a.kind.keys.zip a.values)) =
      some a.values := by
    cases a <;> rfl
  rw [ofMembers?, hvalues]
  exact ofValues?_values a

omit hl in
/-- Every member but the tag is kept as a value. -/
theorem member_of_ne {key : String} (h : key ≠ "action") (depth : Nat) (f : Found) :
    member depth key f =
      .ok ((fun v => { f with members := (key, v) :: f.members }) <$> value depth) := by
  unfold member
  split
  · exact absurd rfl h
  · rfl

omit hl in
/-- Members without a tag among them are kept in their order, from the last on. -/
theorem collects_kept {depth : Nat} {members : List (String × List Char)}
    {kept : List (String × Json)}
    (h : List.Forall₂ (fun m p => m.1 ≠ "action" ∧ p.1 = m.1 ∧ Reads (value depth) p.2 m.2)
      members kept) (f : Found) :
    Collects (member depth) f members { f with members := kept.reverse ++ f.members } := by
  induction h generalizing f with
  | nil => exact .nil f
  | @cons m p members kept hm _ ih =>
    obtain ⟨key, text⟩ := m
    obtain ⟨hne, hkey, hread⟩ := hm
    have hrest := ih { f with members := p :: f.members }
    rw [List.reverse_cons, List.append_assoc]
    refine .cons (member_of_ne hne depth f) ((hread.map _)) ?_
    rw [← hkey]
    exact hrest

theorem collects_values {depth : Nat} {members : List (String × Json)}
    (h : ∀ m ∈ members, m.1 ≠ "action" ∧ m.2.Fits depth) (f : Found) :
    Collects (member depth) f (members.map fun m => (m.1, m.2.render layout d))
      { f with members := members.reverse ++ f.members } := by
  refine collects_kept ?_ f
  rw [List.forall₂_map_left_iff, List.forall₂_same]
  exact fun m hm => ⟨(h m hm).1, rfl, reads_value hl (h m hm).2 d⟩

omit hl in
/-- The members of an action are no tag, and have at most one container inside each other. -/
theorem fits_members (a : Action) (depth : Nat) :
    ∀ m ∈ a.kind.keys.zip a.values, m.1 ≠ "action" ∧ m.2.Fits (depth + 1) := by
  cases a with
  | pause point t =>
    simp [kind, Kind.keys, values, Point.fits_toJson, Duration.fits_toJson]
  | move origin target t =>
    simp [kind, Kind.keys, values, Point.fits_toJson, Duration.fits_toJson]

/-- **An action is read as it is written**, wherever there is depth left for a point. -/
theorem reads {around : Nat} (h : around + 2 ≤ greatestDepth) (a : Action) :
    Reads (Action.reader around) a.kept (a.toJson.render layout d) := by
  obtain ⟨depth, hdepth⟩ : ∃ depth, greatestDepth - around - 1 = depth + 1 :=
    ⟨greatestDepth - around - 2, by omega⟩
  have hcollects := collects_values hl (d + 1) (a.fits_members depth) ⟨some a.kind, []⟩
  rw [toJson, Json.render_object, reader, hdepth]
  refine reads_braces hl d rfl (.cons rfl ((tagReader_reads a.kind).map _) hcollects) ?_
  intro rest
  rw [List.append_nil, required, pure_bind, List.reverse_reverse, ofMembers?_members]
  rfl

end Action

/-! ## Gestures -/

namespace Gesture

/-- The actions are read if each of them is, however they are written. -/
theorem actionsReader_reads_map {write : Action → Json}
    (h : ∀ a, Reads (Action.reader 2) a.kept ((write a).render layout (d + 1)))
    (actions : List Action) :
    Reads actionsReader (actions.map Action.kept)
      ((Json.array (actions.map write)).render layout d) := by
  have harray := array_enclose hl d actions fun a _ => h a
  rw [Layout.enclose_eq] at harray
  rw [Json.render_array, List.map_map, Layout.enclose_eq]
  exact reads_peek rfl (by decide) fun rest _ => harray rest

theorem actionsReader_reads (actions : List Action) :
    Reads actionsReader (actions.map Action.kept)
      ((Json.array (actions.map Action.toJson)).render layout d) :=
  actionsReader_reads_map hl d (Action.reads hl (d + 1) (by decide)) actions

theorem collects (g : Gesture) {actions : List Action} {text : List Char}
    (hactions : Reads actionsReader actions text) :
    Collects member {}
      [("start", g.start.toJson.render layout d), ("delay", g.delay.toJson.render layout d),
        ("actions", text)] ⟨some g.start, some g.delay.kept, some actions⟩ := by
  refine .cons rfl ((g.start.reads hl d).map _) ?_
  refine .cons rfl ((g.delay.reads layout d).map _) ?_
  refine .cons rfl (hactions.map _) ?_
  exact .nil _

/-- **A gesture is read as it is written**, apart from its durations. -/
theorem reads (g : Gesture) : Reads Gesture.reader g.kept (g.toJson.render layout d) := by
  rw [toJson, Json.render_object]
  exact reads_braces hl d rfl (collects hl (d + 1) g (actionsReader_reads hl (d + 1) g.actions))
    fun rest => rfl

end Gesture

/-! ## Settings -/

namespace Settings

omit hl in
theorem collects (layout : Layout) (d : Nat) (s : Settings) :
    Collects member {}
      [(Field.longPress.key, s.longPress.toJson.render layout d),
        (Field.pressed.key, s.pressed.toJson.render layout d)]
      ⟨some s.longPress.kept, some s.pressed.kept⟩ := by
  refine .cons rfl ((s.longPress.reads layout d).map _) ?_
  refine .cons rfl ((s.pressed.reads layout d).map _) ?_
  exact .nil _

/-- **Settings are read as they are written**, apart from their durations. -/
theorem reads (s : Settings) : Reads Settings.reader s.kept (s.toJson.render layout d) := by
  rw [toJson, Json.render_object]
  exact reads_braces hl d rfl (s.collects layout (d + 1)) fun rest => rfl

end Settings

end PointerMotion
