import PointerMotion.Proofs.Json.Parts
import PointerMotion.Proofs.Json.Scalar

/-!
# Arrays and objects are read as they are set out

A container is set out by a layout, and any layout will do that adds blanks only
(`Layout.AddsBlanks`).  It stands blanks in front of the parts, and in front of the closing bracket
unless there are no parts, so what it encloses is a container of the grammar
(`Layout.enclose_eq_brackets`, `Layout.enclose_eq_braces`), and is read part by part.

While a container is read, the part of its text that is still to come is `Layout.pending`: it
depends on the items that are left, and on whether one was read before, which is the flag that the
readers carry too.  Fixed arrays ask item by item, and each statement about them takes one pending
text to the next (`item_pending`).

What members amount to depends on the members before them, so the statement about objects,
`reads_braces`, is about a relation `Collects` that follows the members in their order.
-/

namespace PointerMotion.Json

open Reader

/-! ## Layouts -/

/-- A layout adds blanks only. -/
structure Layout.AddsBlanks (layout : Layout) : Prop where
  newline (depth : Nat) : Blank (layout.newline depth)
  colon : ∃ blanks, layout.colon = ':' :: blanks ∧ Blank blanks

theorem Layout.addsBlanks_compact : compact.AddsBlanks where
  newline _ := blank_nil
  colon := ⟨[], rfl, blank_nil⟩

theorem Layout.addsBlanks_indented : indented.AddsBlanks where
  newline depth := by
    intro c hc
    rcases List.mem_cons.1 hc with rfl | hc
    · rfl
    · rw [List.eq_of_mem_replicate hc]
      rfl
  colon := by
    refine ⟨[' '], rfl, fun c hc => ?_⟩
    rw [List.mem_singleton.1 hc]
    rfl

/-- What is left of a container before the given items; the flag says that no item was before. -/
def Layout.pending (layout : Layout) (depth : Nat) (last : Char) :
    Bool → List (List Char) → List Char
  | true, [] => [last]
  | false, [] => layout.newline depth ++ [last]
  | first, text :: texts =>
    (if first then [] else [',']) ++ layout.newline (depth + 1) ++
      (text ++ layout.pending depth last false texts)

theorem Layout.pending_false_eq (layout : Layout) (depth : Nat) (last : Char)
    (texts : List (List Char)) :
    layout.pending depth last false texts =
      texts.flatMap (fun text => ',' :: layout.newline (depth + 1) ++ text) ++
        layout.newline depth ++ [last] := by
  induction texts with
  | nil => rfl
  | cons text texts ih =>
    rw [pending, ih]
    simp

theorem intercalate_cons {α : Type} (sep text : List α) (texts : List (List α)) :
    sep.intercalate (text :: texts) = text ++ texts.flatMap (sep ++ ·) := by
  induction texts generalizing text with
  | nil => simp [List.intercalate]
  | cons next texts ih => simp_all [List.intercalate]

/-- After its opening bracket, all of a container is pending. -/
theorem Layout.enclose_eq (layout : Layout) (depth : Nat) (first last : Char)
    (texts : List (List Char)) :
    layout.enclose depth first last texts = first :: layout.pending depth last true texts := by
  cases texts with
  | nil => rfl
  | cons text texts =>
    rw [enclose, pending, pending_false_eq, intercalate_cons]
    · simp
    · simp

theorem renderItems_eq_map (layout : Layout) (depth : Nat) (items : List Json) :
    renderItems layout depth items = items.map (render layout depth) := by
  induction items with
  | nil => rfl
  | cons v items ih => rw [renderItems, ih, List.map_cons]

/-- The text of a member. -/
def Layout.member (layout : Layout) (key : String) (text : List Char) : List Char :=
  quote key ++ (layout.colon ++ text)

theorem renderMembers_eq_map (layout : Layout) (depth : Nat) (members : List (String × Json)) :
    renderMembers layout depth members =
      members.map fun m => layout.member m.1 (render layout depth m.2) := by
  induction members with
  | nil => rfl
  | cons m members ih =>
    rw [renderMembers, ih, List.map_cons, Layout.member, List.append_assoc]

/-- The texts of members, each from its key and the text of its value. -/
def memberTexts (layout : Layout) (members : List (String × List Char)) : List (List Char) :=
  members.map fun m => layout.member m.1 m.2

theorem memberTexts_cons (layout : Layout) (key : String) (text : List Char)
    (members : List (String × List Char)) :
    memberTexts layout ((key, text) :: members) =
      layout.member key text :: memberTexts layout members := rfl

theorem render_array (layout : Layout) (depth : Nat) (items : List Json) :
    (Json.array items).render layout depth =
      layout.enclose depth '[' ']' (items.map (render layout (depth + 1))) := by
  rw [render, renderItems_eq_map]

theorem render_object (layout : Layout) (depth : Nat) (members : List (String × Json)) :
    (Json.object members).render layout depth =
      layout.enclose depth '{' '}'
        (memberTexts layout (members.map fun m => (m.1, m.2.render layout (depth + 1)))) := by
  rw [render, renderMembers_eq_map, memberTexts, List.map_map]
  rfl

/-! ## Containers of the grammar -/

section

variable {layout : Layout} (hl : layout.AddsBlanks) (depth : Nat)

/-- A text as an item of a container. -/
def Layout.AddsBlanks.item (text : List Char) : Item where
  before := layout.newline (depth + 1)
  text := text
  after := []
  blank_before := hl.newline (depth + 1)
  blank_after := blank_nil

/-- A key and a text as a member of a container. -/
def Layout.AddsBlanks.member (m : String × List Char) : Member where
  before := layout.newline (depth + 1)
  key := quote m.1
  after := []
  item :=
    { before := layout.colon.tail
      text := m.2
      after := []
      blank_before := by
        obtain ⟨blanks, hcolon, hblanks⟩ := hl.colon
        rw [hcolon]
        exact hblanks
      blank_after := blank_nil }
  blank_before := hl.newline (depth + 1)
  blank_after := blank_nil
  isString_key := isString_quote m.1

theorem Layout.AddsBlanks.whole_item (text : List Char) :
    (hl.item depth text).whole = layout.newline (depth + 1) ++ text := by
  simp [item, Item.whole]

theorem Layout.AddsBlanks.whole_member (m : String × List Char) :
    (hl.member depth m).whole = layout.newline (depth + 1) ++ layout.member m.1 m.2 := by
  obtain ⟨blanks, hcolon, -⟩ := hl.colon
  simp [member, Member.whole, Item.whole, Layout.member, hcolon]

/-- The blanks in front of the closing bracket, if the given parts are all that is left. -/
def Layout.closing {α : Type} (layout : Layout) (depth : Nat) (first : Bool) (parts : List α) :
    List Char :=
  if first && parts.isEmpty then [] else layout.newline depth

include hl in
theorem Layout.AddsBlanks.blank_closing {α : Type} (first : Bool) (parts : List α) :
    Blank (layout.closing depth first parts) := by
  unfold Layout.closing
  split
  · exact blank_nil
  · exact hl.newline depth

/-- What is pending is what is left of a container of the grammar. -/
theorem Layout.pending_eq_remainder (layout : Layout) (depth : Nat) (last : Char) (first : Bool)
    (texts : List (List Char)) : layout.pending depth last first texts =
      remainder (layout.closing depth first texts) last first
        (texts.map fun text => layout.newline (depth + 1) ++ text) := by
  induction texts generalizing first with
  | nil => cases first <;> rfl
  | cons text texts ih =>
    rw [pending, ih, List.map_cons, remainder]
    simp [closing]

theorem Layout.pending_eq_items (last : Char) (first : Bool) (texts : List (List Char)) :
    layout.pending depth last first texts = remainder (layout.closing depth first texts) last first
      ((texts.map (hl.item depth)).map Item.whole) := by
  rw [pending_eq_remainder, List.map_map]
  exact congrArg _ (List.map_congr_left fun text _ => (hl.whole_item depth text).symm)

theorem Layout.pending_eq_members (last : Char) (first : Bool)
    (members : List (String × List Char)) :
    layout.pending depth last first (memberTexts layout members) =
      remainder (layout.closing depth first members) last first
        ((members.map (hl.member depth)).map Member.whole) := by
  have hclosing : layout.closing depth first (memberTexts layout members) =
      layout.closing depth first members := by
    rw [closing, closing, memberTexts, List.isEmpty_map]
  rw [pending_eq_remainder, hclosing, memberTexts, List.map_map, List.map_map]
  exact congrArg _ (List.map_congr_left fun m _ => (hl.whole_member depth m).symm)

theorem Layout.enclose_eq_brackets (texts : List (List Char)) :
    layout.enclose depth '[' ']' texts =
      brackets (layout.closing depth true texts) (texts.map (hl.item depth)) := by
  rw [enclose_eq, pending_eq_items hl, brackets]

theorem Layout.enclose_eq_braces (members : List (String × List Char)) :
    layout.enclose depth '{' '}' (memberTexts layout members) =
      braces (layout.closing depth true members) (members.map (hl.member depth)) := by
  rw [enclose_eq, pending_eq_members hl, braces]

end

namespace Reader

variable {α ι σ : Type} {layout : Layout}

/-- What is pending after an item delimits it. -/
theorem delimited_pending (hl : layout.AddsBlanks) (depth : Nat) {last : Char}
    (hlast : isDelimiter last = true) (texts : List (List Char)) (rest : List Char) :
    Delimited (layout.pending depth last false texts ++ rest) := by
  rw [Layout.pending_eq_remainder]
  exact delimited_remainder blank_nil (hl.blank_closing depth false texts) last hlast _ rest

/-! ## Arrays -/

theorem hasItem_pending_cons (hl : layout.AddsBlanks) {text : List Char} (ht : Begins text)
    (depth : Nat) (first : Bool) (texts : List (List Char)) (rest : List Char) :
    hasItem first (layout.pending depth ']' first (text :: texts) ++ rest) =
      .ok (true, text ++ (layout.pending depth ']' false texts ++ rest)) := by
  rw [Layout.pending_eq_items hl, Layout.pending_eq_items hl]
  have hmore := @hasItem_remainder_cons [] (layout.closing depth first (text :: texts)) blank_nil
    (hl.item depth text) ht first ((texts.map (hl.item depth)).map Item.whole) rest
  simpa [Layout.closing, Layout.AddsBlanks.item] using hmore

theorem hasItem_pending_nil (hl : layout.AddsBlanks) (depth : Nat) (first : Bool)
    (rest : List Char) :
    hasItem first (layout.pending depth ']' first [] ++ rest) = .ok (false, ']' :: rest) := by
  rw [Layout.pending_eq_remainder]
  exact hasItem_remainder_nil blank_nil (hl.blank_closing depth first []) first rest

/-- An item is taken, and what was pending after it is pending now. -/
theorem item_pending (hl : layout.AddsBlanks) {r : Reader α} {a : α} {text : List Char}
    (h : Reads r a text) (depth : Nat) (first : Bool) (texts : List (List Char))
    (rest : List Char) :
    item first r (layout.pending depth ']' first (text :: texts) ++ rest) =
      .ok (a, layout.pending depth ']' false texts ++ rest) := by
  rw [item, bind_of_ok (hasItem_pending_cons hl h.begins depth first texts rest)]
  exact h.run_front (delimited_pending hl depth rfl texts rest)

/-- The bracket at the end is taken. -/
theorem punctuation_pending_nil (hl : layout.AddsBlanks) (depth : Nat) {last : Char}
    (hlast : isBlank last = false) (rest : List Char) :
    punctuation last (layout.pending depth last false [] ++ rest) = .ok ((), rest) := by
  rw [Layout.pending_eq_remainder]
  exact punctuation_remainder_nil blank_nil (hl.newline depth) hlast false rest

theorem array_enclose (hl : layout.AddsBlanks) (depth : Nat) {r : Reader α} {a : ι → α}
    {text : ι → List Char} (xs : List ι) (h : ∀ x ∈ xs, Reads r (a x) (text x))
    (rest : List Char) :
    array r (layout.enclose depth '[' ']' (xs.map text) ++ rest) = .ok (xs.map a, rest) := by
  rw [Layout.enclose_eq_brackets hl, List.map_map]
  refine items_remainder blank_nil (hl.blank_closing depth true _) ?_ true rest
  rw [List.forall₂_map_left_iff, List.forall₂_map_right_iff, List.forall₂_same]
  exact h

/-! ## Objects -/

/-- **What members amount to**, from one state of a reader to the next: each member has a reader
for its value, in the state that the members before it have left. -/
inductive Collects (member : String → σ → Except Fault (Reader σ)) :
    σ → List (String × List Char) → σ → Prop where
  | nil (s : σ) : Collects member s [] s
  | cons {s s' s'' : σ} {key : String} {text : List Char} {r : Reader σ}
      {rest : List (String × List Char)} (hr : member key s = .ok r) (h : Reads r s' text)
      (hrest : Collects member s' rest s'') : Collects member s ((key, text) :: rest) s''

/-- Members that are set out amount to what they amount to. -/
theorem Collects.amounts (hl : layout.AddsBlanks) (depth : Nat)
    {member : String → σ → Except Fault (Reader σ)} {s s' : σ}
    {members : List (String × List Char)} (h : Collects member s members s') :
    Amounts quoted member s (members.map (hl.member depth)) s' := by
  induction h with
  | nil s => exact .nil s
  | @cons s s' s'' key text r members hr h _ ih => exact .cons (quoted_quote key) hr h ih

/-- **A reader that meets a brace and takes an object** reads the text of members that amount to
what it wants. -/
theorem reads_braces_of_amounts (hl : layout.AddsBlanks) (depth : Nat) {f : Char → Reader α}
    {g : σ → Reader α} {member : String → σ → Except Fault (Reader σ)} {s s' : σ}
    {members : List (String × List Char)} {a : α} (hf : f '{' = object member s >>= g)
    (h : Amounts quoted member s (members.map (hl.member depth)) s')
    (hg : ∀ rest, g s' rest = .ok (a, rest)) :
    Reads (peek >>= f) a (layout.enclose depth '{' '}' (memberTexts layout members)) := by
  have hobject := objectWith_braces (hl.blank_closing depth true members) h
  rw [← Layout.enclose_eq_braces hl, Layout.enclose_eq] at hobject
  rw [Layout.enclose_eq]
  refine reads_peek rfl (by decide) fun rest _ => ?_
  rw [hf]
  exact (bind_of_ok (hobject rest)).trans (hg rest)

theorem reads_braces (hl : layout.AddsBlanks) (depth : Nat) {f : Char → Reader α} {g : σ → Reader α}
    {member : String → σ → Except Fault (Reader σ)} {s s' : σ}
    {members : List (String × List Char)} {a : α} (hf : f '{' = object member s >>= g)
    (h : Collects member s members s') (hg : ∀ rest, g s' rest = .ok (a, rest)) :
    Reads (peek >>= f) a (layout.enclose depth '{' '}' (memberTexts layout members)) :=
  reads_braces_of_amounts hl depth hf (h.amounts hl depth) hg

end Reader
end PointerMotion.Json
