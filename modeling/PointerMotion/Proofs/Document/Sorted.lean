import PointerMotion.Proofs.Document.Members
import PointerMotion.Proofs.Json.Sorted

/-!
# Documents with their keys in order

A document for people has the members of its objects in alphabetical order, which is not the order
in which they are written elsewhere: the start of a gesture comes last, and the duration of a move
comes before the points.  It is read as the same value all the same.

For rectangles and gestures this is so because their readers have slots.  For an action it is so
because its members are looked up by their keys.
-/

namespace PointerMotion

open Json (Layout Reader byKey)
open Json.Reader

variable {layout : Layout} (hl : layout.AddsBlanks) (d : Nat)

/-! ## Reading -/

theorem Point.sorted_toJson (p : Point) : p.toJson.sorted = p.toJson := by
  rw [toJson, Json.sorted_array]
  rfl

include hl

theorem Rect.reads_sorted (r : Rect) : Reads Rect.reader r (r.toJson.sorted.render layout d) := by
  rw [toJson, Json.sorted_object]
  exact isSlotted_member.reads_byKey hl d rfl (r.collects layout (d + 1)) fun rest => rfl

omit hl in
/-- There are no objects in the values of an action. -/
theorem Action.map_sorted_members (a : Action) :
    (("action", Json.string a.kind.tag) :: a.kind.keys.zip a.values).map
        (fun m => (m.1, m.2.sorted)) =
      ("action", .string a.kind.tag) :: a.kind.keys.zip a.values := by
  cases a with
  | pause point t =>
    simp only [kind, Kind.keys, values, List.zip_cons_cons, List.zip_nil_left, List.map_cons,
      List.map_nil, Point.sorted_toJson]
    rfl
  | move origin target t =>
    simp only [kind, Kind.keys, values, List.zip_cons_cons, List.zip_nil_left, List.map_cons,
      List.map_nil, Point.sorted_toJson]
    rfl

/-- The members of an action are looked up when all of them were read, so they are in any order. -/
theorem Action.reads_sorted {around : Nat} (h : around + 2 ≤ greatestDepth) (a : Action) :
    Reads (Action.reader around) a.kept (a.toJson.sorted.render layout d) := by
  obtain ⟨depth, hdepth⟩ : ∃ depth, greatestDepth - around - 1 = depth + 1 :=
    ⟨greatestDepth - around - 2, by omega⟩
  let members := ("action", Json.string a.kind.tag) :: a.kind.keys.zip a.values
  have hcollects : Collects (member (depth + 1)) {}
      (members.map fun m => (m.1, m.2.render layout (d + 1)))
      ⟨some a.kind, (a.kind.keys.zip a.values).reverse ++ []⟩ :=
    .cons rfl ((tagReader_reads a.kind).map _)
      (collects_values hl (d + 1) (a.fits_members depth) ⟨some a.kind, []⟩)
  obtain ⟨f, hf, hkind, hmembers⟩ := exists_amounts_perm (isValue_of_mem_rendered hl d members)
    (hcollects.amounts hl d) (((Json.byKey_perm members).map _).map _)
  rw [toJson, Json.sorted_object, map_sorted_members, Json.render_object, reader, hdepth]
  refine reads_braces_of_amounts hl d rfl hf fun rest => ?_
  rw [required_action?, Found.action?_congr hkind fun _ _ _ _ => Json.only?_perm hmembers,
    List.append_nil, Found.action?, Option.bind_some, List.reverse_reverse, ofMembers?_members]
  rfl

omit hl in
theorem Gesture.sorted_toJson (g : Gesture) : g.toJson.sorted =
    .object (byKey [("start", g.start.toJson), ("delay", g.delay.toJson),
      ("actions", .array (g.actions.map fun a => a.toJson.sorted))]) := by
  rw [toJson, Json.sorted_object]
  simp only [List.map_cons, List.map_nil, Point.sorted_toJson, Json.sorted_array, List.map_map]
  rfl

/-- **A gesture is read from a document with its keys in order** as from any other. -/
theorem Gesture.reads_sorted (g : Gesture) :
    Reads Gesture.reader g.kept (g.toJson.sorted.render layout d) := by
  have hactions := actionsReader_reads_map hl (d + 1)
    (fun a => a.reads_sorted hl (d + 1 + 1) (show 2 + 2 ≤ greatestDepth by decide)) g.actions
  rw [sorted_toJson]
  exact isSlotted_member.reads_byKey hl d rfl (collects hl (d + 1) g hactions) fun rest => rfl

/-! ## Keys and depth -/

omit hl in
theorem Point.hasDistinctKeys_toJson (p : Point) : p.toJson.HasDistinctKeys := by
  refine .array ?_
  rw [List.forall_mem_cons, List.forall_mem_singleton]
  exact ⟨.number _, .number _⟩

omit hl in
theorem Rect.hasDistinctKeys_toJson (r : Rect) : r.toJson.HasDistinctKeys := by
  refine .object (by simp) ?_
  simp only [List.forall_mem_cons]
  exact ⟨.number _, .number _, .number _, .number _, List.forall_mem_nil _⟩

omit hl in
theorem Action.hasDistinctKeys_toJson (a : Action) : a.toJson.HasDistinctKeys := by
  cases a with
  | pause point t =>
    refine .object (by simp [kind, Kind.keys, values]) ?_
    simp only [kind, Kind.keys, values, List.zip_cons_cons, List.zip_nil_left, List.forall_mem_cons]
    exact ⟨.string _, point.hasDistinctKeys_toJson, .number _, List.forall_mem_nil _⟩
  | move origin target t =>
    refine .object (by simp [kind, Kind.keys, values]) ?_
    simp only [kind, Kind.keys, values, List.zip_cons_cons, List.zip_nil_left, List.forall_mem_cons]
    exact ⟨.string _, origin.hasDistinctKeys_toJson, target.hasDistinctKeys_toJson, .number _,
      List.forall_mem_nil _⟩

omit hl in
theorem Gesture.hasDistinctKeys_toJson (g : Gesture) : g.toJson.HasDistinctKeys := by
  refine .object (by simp) ?_
  simp only [List.forall_mem_cons]
  refine ⟨g.start.hasDistinctKeys_toJson, .number _, .array ?_, List.forall_mem_nil _⟩
  exact List.forall_mem_map.2 fun a _ => a.hasDistinctKeys_toJson

omit hl in
theorem Rect.fits_toJson (r : Rect) (depth : Nat) : r.toJson.Fits (depth + 1) := by
  have hcoord (c : Coord) : c.toJson.Fits depth := (Json.fits_integer depth _).2 c.isWord_val
  simp only [toJson, Json.Fits, List.forall_mem_cons]
  exact ⟨hcoord _, hcoord _, hcoord _, hcoord _, List.forall_mem_nil _⟩

omit hl in
theorem Action.fits_toJson (a : Action) (depth : Nat) : a.toJson.Fits (depth + 2) := by
  rw [toJson, Json.Fits, List.forall_mem_cons]
  refine ⟨trivial, fun m hm => (a.fits_members depth m hm).2⟩

omit hl in
/-- A point in an action in the list of a gesture is as deep as a gesture goes. -/
theorem Gesture.fits_toJson (g : Gesture) (depth : Nat) : g.toJson.Fits (depth + 4) := by
  simp only [toJson, Json.Fits, List.forall_mem_cons]
  exact ⟨g.start.fits_toJson _, g.delay.fits_toJson _,
    List.forall_mem_map.2 fun a _ => a.fits_toJson depth, List.forall_mem_nil _⟩

end PointerMotion
