import PointerMotion.Proofs.Document.RoundTrip
import PointerMotion.Proofs.Json.Rejecting

/-!
# The two forms of values with several parts

A rectangle, an action, a gesture and settings may be written as an object or as the array of their
parts, and the actions of a gesture in any mixture of both.  The two forms are read as the same
value.  They differ in what is wrong with them when something is wrong: an object cannot be too
long, and an array cannot have its parts in another order.

An array that is too short is a mismatch, as a part is missing, except for settings, where the part
has its default.  An array that is too long is malformed where it is read straight from the text,
because after the last part nothing but the bracket is understood.  It is a mismatch where it was
kept as a value before it was looked at, and that is in an action: its own array, and the points in
it.  But keeping comes first, so a number that cannot be kept is what is reported.
-/

namespace PointerMotion

open Json (Fault Reader Layout quote memberTexts)
open Json.Reader

/-! ## Forms -/

/-- The forms of a value with several parts. -/
inductive Form where
  | array
  | object
  deriving DecidableEq, Repr

/-- Parts with their keys, in the order of the array. -/
def Form.write : Form → List (String × Json) → Json
  | array, parts => .array (parts.map Prod.snd)
  | object, parts => .object parts

/-- The array of parts with more integers behind them. -/
def overfull (parts : List (String × Json)) (more : List Int) : Json :=
  .array (parts.map Prod.snd ++ more.map .integer)

/-- The text of parts in a form. -/
def Form.enclose (form : Form) (layout : Layout) (depth : Nat)
    (parts : List (String × List Char)) : List Char :=
  match form with
  | array => layout.enclose depth '[' ']' (parts.map Prod.snd)
  | object => layout.enclose depth '{' '}' (memberTexts layout parts)

theorem Form.render_write (form : Form) (layout : Layout) (depth : Nat)
    (parts : List (String × Json)) : (form.write parts).render layout depth =
      form.enclose layout depth (parts.map fun m => (m.1, m.2.render layout (depth + 1))) := by
  cases form with
  | array => rw [write, Json.render_array, enclose, List.map_map, List.map_map]; rfl
  | object => rw [write, Json.render_object, enclose]

/-! ## Parts -/

/-- The parts of a point.  Only the array is a form of it, but its keys name them all the same. -/
def Point.parts (p : Point) : List (String × Json) := [("x", p.x.toJson), ("y", p.y.toJson)]

/-- The parts of a rectangle are its edges. -/
def Rect.parts (r : Rect) : List (String × Json) :=
  [("left", r.left.toJson), ("top", r.top.toJson), ("right", r.right.toJson),
    ("bottom", r.bottom.toJson)]

/-- The parts of an action are its tag and the values of its kind. -/
def Action.parts (a : Action) : List (String × Json) :=
  ("action", .string a.kind.tag) :: a.kind.keys.zip a.values

/-- The parts of a gesture whose actions are written in some way. -/
def Gesture.parts (g : Gesture) (actions : List Json) : List (String × Json) :=
  [("start", g.start.toJson), ("delay", g.delay.toJson), ("actions", .array actions)]

/-- The parts of settings are the timings. -/
def Settings.parts (s : Settings) : List (String × Json) :=
  [(Settings.Field.longPress.key, s.longPress.toJson),
    (Settings.Field.pressed.key, s.pressed.toJson)]

/-- The value is the action, in one of its forms. -/
def Action.IsWritten (a : Action) (v : Json) : Prop := ∃ form : Form, v = form.write a.parts

/-- Every number below `2 ^ 64` is written for some duration. -/
theorem Duration.exists_written_eq {n : Nat} (h : n ≤ greatestWritten) :
    ∃ t : Duration, t.written = n ∧ t.kept = t := by
  rcases Nat.lt_or_eq_of_le h with h | rfl
  · exact ⟨ofMillis n, by rw [written, millis_ofMillis h, Nat.min_eq_left (Nat.le_of_lt h)],
      kept_eq_self_iff.2 (.inr ⟨n, h, rfl⟩)⟩
  · exact ⟨longest, by decide, kept_eq_self_iff.2 (.inl rfl)⟩

/-- The texts of parts, without their keys. -/
def itemTexts (layout : Layout) (depth : Nat) (parts : List (String × Json)) : List (List Char) :=
  parts.map fun m => m.2.render layout depth

/-- The texts of integers. -/
def integerTexts (more : List Int) : List (List Char) :=
  more.map fun n => (Json.Number.integer n).text

theorem Form.render_write_array (layout : Layout) (depth : Nat) (parts : List (String × Json)) :
    (Form.array.write parts).render layout depth =
      layout.enclose depth '[' ']' (itemTexts layout (depth + 1) parts) := by
  rw [write, Json.render_array, List.map_map]
  rfl

theorem render_overfull (layout : Layout) (depth : Nat) (parts : List (String × Json))
    (more : List Int) : (overfull parts more).render layout depth = layout.enclose depth '[' ']'
      (itemTexts layout (depth + 1) parts ++ integerTexts more) := by
  rw [overfull, Json.render_array, List.map_append, List.map_map, List.map_map]
  rfl

variable {layout : Layout} (hl : layout.AddsBlanks) (d : Nat)
include hl

omit hl in
/-- After the last part of an array there is the bracket, and nothing else. -/
theorem takes_integerTexts {α : Type} (r : Reader α) {more : List Int} (hmore : more ≠ []) :
    Takes layout d (punctuation ']' >>= fun _ => r) false (integerTexts more)
      (.error .malformed) := by
  obtain ⟨n, more, rfl⟩ := List.exists_cons_of_ne_nil hmore
  exact takes_punctuation_cons r _ _

/-! ## Points and rectangles -/

theorem Point.yields_overfull (p : Point) {more : List Int} (hmore : more ≠ []) :
    Yields Point.reader (.error .malformed) ((overfull p.parts more).render layout d) := by
  rw [render_overfull]
  refine Takes.yields ?_ rfl
  exact takes_item hl (p.x.reads layout (d + 1)) <| takes_item hl (p.y.reads layout (d + 1)) <|
    takes_integerTexts d _ hmore

namespace Rect

/-- What comes of an array that begins with the edges is decided by what stands behind them. -/
theorem yields_parts_append (r : Rect) {texts : List (List Char)} {outcome : Except Fault Rect}
    (h : Takes layout d (punctuation ']' >>= fun _ => pure r) false texts outcome) :
    Yields Rect.reader outcome
      (layout.enclose d '[' ']' (itemTexts layout (d + 1) r.parts ++ texts)) := by
  refine Takes.yields ?_ rfl
  exact takes_item hl (r.left.reads layout (d + 1)) <| takes_item hl (r.top.reads layout (d + 1)) <|
    takes_item hl (r.right.reads layout (d + 1)) <|
    takes_item hl (r.bottom.reads layout (d + 1)) h

theorem yields_array (r : Rect) :
    Yields Rect.reader (.ok r) ((Form.array.write r.parts).render layout d) := by
  rw [Form.render_write_array, ← List.append_nil (itemTexts layout (d + 1) r.parts)]
  exact r.yields_parts_append hl d (takes_punctuation hl r)

theorem yields_overfull (r : Rect) {more : List Int} (hmore : more ≠ []) :
    Yields Rect.reader (.error .malformed) ((overfull r.parts more).render layout d) := by
  rw [render_overfull]
  exact r.yields_parts_append hl d (takes_integerTexts d _ hmore)

theorem yields_take (r : Rect) {n : Nat} (hn : n < 4) : Yields Rect.reader (.error .mismatch)
    ((Form.array.write (r.parts.take n)).render layout d) := by
  rw [Form.render_write_array]
  refine Takes.yields ?_ rfl
  match n with
  | 0 => exact takes_item_nil hl _ _
  | 1 => exact takes_item hl (r.left.reads layout (d + 1)) <| takes_item_nil hl _ _
  | 2 =>
    exact takes_item hl (r.left.reads layout (d + 1)) <|
      takes_item hl (r.top.reads layout (d + 1)) <| takes_item_nil hl _ _
  | 3 =>
    exact takes_item hl (r.left.reads layout (d + 1)) <|
      takes_item hl (r.top.reads layout (d + 1)) <|
      takes_item hl (r.right.reads layout (d + 1)) <| takes_item_nil hl _ _

end Rect

/-! ## Actions -/

namespace Action

omit hl in
/-- The values of an action are as many as the members of its kind. -/
theorem ofValues?_eq_none {kind : Kind} {values : List Json}
    (h : values.length ≠ kind.keys.length) : ofValues? kind values = none := by
  unfold ofValues?
  split
  · exact absurd rfl h
  · exact absurd rfl h
  · rfl

omit hl in
theorem length_values (a : Action) : a.values.length = a.kind.keys.length := by
  cases a <;> rfl

omit hl in
/-- The members of a kind are looked up as the values they are. -/
theorem ofMembers?_zip {kind : Kind} {values : List Json}
    (h : values.length = kind.keys.length) :
    ofMembers? kind (kind.keys.zip values) = ofValues? kind values := by
  cases kind with
  | pause =>
    match values, h with
    | [_, _], _ => rfl
  | move =>
    match values, h with
    | [_, _, _], _ => rfl

variable {around depth : Nat}

omit hl in
/-- Keys with texts are kept as the same keys with values. -/
theorem kept_zip {texts : List (List Char)} {values : List Json}
    (h : ReadsAll (value depth) texts values) {keys : List String} (hkeys : "action" ∉ keys) :
    List.Forall₂ (fun (m : String × List Char) (p : String × Json) =>
      m.1 ≠ "action" ∧ p.1 = m.1 ∧ Reads (value depth) p.2 m.2) (keys.zip texts)
      (keys.zip values) := by
  induction h generalizing keys with
  | nil =>
    rw [List.zip_nil_right, List.zip_nil_right]
    exact .nil
  | cons htext _ ih =>
    cases keys with
    | nil => exact .nil
    | cons key keys =>
      obtain ⟨hne, hkeys⟩ := not_or.1 (List.mem_cons.not.1 hkeys)
      exact .cons ⟨Ne.symm hne, rfl, htext⟩ (ih hkeys)

variable (hdepth : greatestDepth - around - 1 = depth)
include hdepth

/-- What comes of the array of a tag and values, if the values are kept. -/
theorem yields_items (kind : Kind) {texts : List (List Char)} {values : List Json}
    (h : ReadsAll (value depth) texts values) :
    Yields (Action.reader around) (outcome (ofValues? kind values))
      (layout.enclose d '[' ']' (quote kind.tag :: texts)) := by
  subst hdepth
  refine Takes.yields ?_ rfl
  exact takes_item hl (tagReader_reads kind) <| (takes_items hl h).bind (required_eq_outcome _)

theorem yields_items_of_rejects (kind : Kind) {front : List (List Char)} {values : List Json}
    (h : ReadsAll (value depth) front values) {text : List Char} {e : Fault}
    (htext : Rejects (value depth) e text) (back : List (List Char)) :
    Yields (Action.reader around) (.error e)
      (layout.enclose d '[' ']' (quote kind.tag :: (front ++ text :: back))) := by
  subst hdepth
  refine Takes.yields ?_ rfl
  exact takes_item hl (tagReader_reads kind)
    ((takes_items_of_rejects hl h htext back).bind_error _)

/-- What comes of an action in one of its forms, if its values are kept. -/
theorem yields_enclose (form : Form) (kind : Kind) {texts : List (List Char)} {values : List Json}
    (h : ReadsAll (value depth) texts values)
    (hlength : values.length = kind.keys.length) :
    Yields (Action.reader around) (outcome (ofValues? kind values))
      (form.enclose layout d (("action", quote kind.tag) :: kind.keys.zip texts)) := by
  have hlength' : texts.length = kind.keys.length := h.length_eq.trans hlength
  cases form with
  | array =>
    rw [Form.enclose, List.map_cons, List.map_snd_zip (Nat.le_of_eq hlength')]
    exact yields_items hl d hdepth kind h
  | object =>
    subst hdepth
    have hcollects := collects_kept (kept_zip h kind.not_mem_keys) ⟨some kind, []⟩
    rw [List.append_nil] at hcollects
    refine yields_braces hl rfl (.cons rfl ((tagReader_reads kind).map _) hcollects) fun rest => ?_
    rw [required, pure_bind, List.reverse_reverse, ofMembers?_zip hlength]
    exact required_eq_outcome _ rest

/-- The first of the values of an action that is rejected decides what comes of the action. -/
theorem yields_enclose_of_rejects (form : Form) (kind : Kind) {front back : List (List Char)}
    {text : List Char} (hlength : (front ++ text :: back).length = kind.keys.length)
    {values : List Json} (h : ReadsAll (value depth) front values) {e : Fault}
    (htext : Rejects (value depth) e text) :
    Yields (Action.reader around) (.error e)
      (form.enclose layout d
        (("action", quote kind.tag) :: kind.keys.zip (front ++ text :: back))) := by
  cases form with
  | array =>
    rw [Form.enclose, List.map_cons, List.map_snd_zip (Nat.le_of_eq hlength)]
    exact yields_items_of_rejects hl d hdepth kind h htext back
  | object =>
    subst hdepth
    obtain ⟨keys, key, keys', hkeys, hfront⟩ : ∃ keys key keys',
        kind.keys = keys ++ key :: keys' ∧ keys.length = front.length := by
      have hlt : front.length < kind.keys.length := by
        rw [← hlength, List.length_append, List.length_cons]
        omega
      exact ⟨kind.keys.take front.length, kind.keys[front.length],
        kind.keys.drop (front.length + 1), by simp, by simp; omega⟩
    have hnot := kind.not_mem_keys
    rw [hkeys, List.mem_append, List.mem_cons, not_or, not_or] at hnot
    rw [hkeys, List.zip_append hfront, List.zip_cons_cons, ← List.cons_append]
    exact rejects_braces hl rfl
      (.cons rfl ((tagReader_reads kind).map _) (collects_kept (kept_zip h hnot.1) _))
      (member_of_ne (Ne.symm hnot.2.1) _ _) (htext.map _) _

end Action

/-! ## Integers among the values -/

/-- What becomes of the integers that are too many where values are kept. -/
def tooMany (more : List Int) : Fault :=
  if ∀ n ∈ more, ¬ IsOversized n then .mismatch else .malformed

omit hl in
/-- Integers are kept, or the first that is oversized is malformed. -/
theorem integerTexts_cases (more : List Int) (depth : Nat) :
    (tooMany more = .mismatch ∧ ∃ values, ReadsAll (value depth) (integerTexts more) values) ∨
      tooMany more = .malformed ∧ ∃ front text back values,
        integerTexts more = front ++ text :: back ∧
          ReadsAll (value depth) front values ∧ Rejects (value depth) .malformed text := by
  induction more with
  | nil => exact .inl ⟨if_pos (List.forall_mem_nil _), [], .nil⟩
  | cons n more ih =>
    by_cases hn : IsOversized n
    · refine .inr ⟨if_neg fun h => h n List.mem_cons_self hn, [], _, integerTexts more, [], rfl,
        .nil, rejects_value_integer hn depth⟩
    · obtain ⟨x, hx⟩ := exists_reads_value_integer hn
      have htooMany : tooMany (n :: more) = tooMany more := by
        simp only [tooMany, List.forall_mem_cons, hn, not_false_eq_true, true_and]
      rw [htooMany]
      rcases ih with ⟨hmore, values, h⟩ | ⟨hmore, front, text, back, values, htexts, h, htext⟩
      · exact .inl ⟨hmore, _, .cons (hx depth) h⟩
      · refine .inr ⟨hmore, _ :: front, text, back, _, ?_, .cons (hx depth) h, htext⟩
        rw [List.cons_append, ← htexts]
        rfl

omit hl in
theorem integerTexts_ne_nil {more : List Int} (h : more ≠ []) : integerTexts more ≠ [] :=
  fun hnil => h (List.map_eq_nil_iff.1 hnil)

/-- A point with more integers behind its coordinates is kept, but it is no point, or it cannot be
kept. -/
theorem Point.kept_overfull (p : Point) {more : List Int} (hmore : more ≠ []) (depth : Nat) :
    (tooMany more = .mismatch ∧ ∃ v, Point.ofJson? v = none ∧
        Reads (value (depth + 1)) v ((overfull p.parts more).render layout d)) ∨
      tooMany more = .malformed ∧
        Rejects (value (depth + 1)) .malformed ((overfull p.parts more).render layout d) := by
  have hparts : ReadsAll (value depth) (itemTexts layout (d + 1) p.parts)
      [p.x.toJson, p.y.toJson] :=
    .cons (reads_value hl ((Json.fits_integer depth _).2 p.x.isWord_val) (d + 1)) <|
      .cons (reads_value hl ((Json.fits_integer depth _).2 p.y.isWord_val) (d + 1)) .nil
  rw [render_overfull]
  rcases integerTexts_cases more depth with ⟨h, values, hvalues⟩ |
    ⟨h, front, text, back, values, htexts, hvalues, htext⟩
  · obtain ⟨v, values, rfl⟩ : ∃ v vs, values = v :: vs := by
      refine List.exists_cons_of_ne_nil fun hnil => integerTexts_ne_nil hmore ?_
      rw [hnil] at hvalues
      exact List.forall₂_nil_right_iff.1 hvalues
    refine .inl ⟨h, .array ([p.x.toJson, p.y.toJson] ++ v :: values), rfl, ?_⟩
    show Yields _ (.ok _) _
    refine Takes.yields ((takes_items hl (hparts.append hvalues)).bind ?_)
      (by rw [Reader.array, bind_assoc]; rfl)
    exact fun rest => rfl
  · refine .inr ⟨h, ?_⟩
    rw [htexts, ← List.append_assoc]
    show Yields _ (.error _) _
    exact Takes.yields
      ((takes_items_of_rejects hl (hparts.append hvalues) htext back).bind_error _)
      (by rw [Reader.array, bind_assoc]; rfl)

namespace Action

/-- The action in one of its forms, with more integers in an array of it: behind its own values, or
behind the coordinates of a point. -/
inductive IsOverfull (a : Action) (more : List Int) : Json → Prop where
  | own : IsOverfull a more (overfull a.parts more)
  | point {form : Form} {front back : List Json} {p : Point}
      (h : a.values = front ++ p.toJson :: back) :
      IsOverfull a more (form.write (("action", .string a.kind.tag) ::
        a.kind.keys.zip (front ++ overfull p.parts more :: back)))

omit hl in
theorem itemTexts_parts (a : Action) : itemTexts layout d a.parts =
    quote a.kind.tag :: a.values.map (Json.render layout d) := by
  cases a <;> rfl

omit hl in
/-- What is no point in the place of a point leaves no action. -/
theorem ofValues?_eq_none_of_point {a : Action} {front back : List Json} {p : Point}
    (h : a.values = front ++ p.toJson :: back) {v : Json} (hv : Point.ofJson? v = none) :
    ofValues? a.kind (front ++ v :: back) = none := by
  cases a with
  | pause point t =>
    rcases front with _ | ⟨x, _ | ⟨y, front⟩⟩ <;>
      simp only [values, Duration.toJson, Json.integer, Point.toJson, List.nil_append,
        List.cons_append, List.cons.injEq, reduceCtorEq, false_and, and_false, List.nil_eq,
        List.append_eq_nil_iff] at h
    obtain ⟨-, rfl⟩ := h
    simp [kind, ofValues?, hv]
  | move origin target t =>
    rcases front with _ | ⟨x, _ | ⟨y, _ | ⟨z, front⟩⟩⟩ <;>
      simp only [values, Duration.toJson, Json.integer, Point.toJson, List.nil_append,
        List.cons_append, List.cons.injEq, reduceCtorEq, false_and, and_false, List.nil_eq,
        List.append_eq_nil_iff] at h
    · obtain ⟨-, rfl⟩ := h
      simp [kind, ofValues?, hv]
    · obtain ⟨-, -, rfl⟩ := h
      simp [kind, ofValues?, hv]

/-- The values of an action are kept as they are written. -/
theorem reads_values (a : Action) (depth : Nat) :
    ∀ v ∈ a.values, Reads (value (depth + 1)) v (v.render layout d) := by
  intro v hv
  refine reads_value hl ?_ d
  cases a <;> simp only [values, List.mem_cons, List.not_mem_nil, or_false] at hv <;>
    rcases hv with rfl | rfl | rfl <;>
    first | exact Point.fits_toJson _ _ | exact Duration.fits_toJson _ _

omit hl in
theorem readsAll_render {depth : Nat} {values : List Json}
    (h : ∀ v ∈ values, Reads (value depth) v (v.render layout d)) :
    ReadsAll (value depth) (values.map (Json.render layout d)) values := by
  rw [ReadsAll, List.forall₂_map_left_iff, List.forall₂_same]
  exact h

omit hl in
theorem render_write (form : Form) (kind : Kind) (values : List Json) :
    (form.write (("action", .string kind.tag) :: kind.keys.zip values)).render layout d =
      form.enclose layout d (("action", quote kind.tag) ::
        kind.keys.zip (values.map (Json.render layout (d + 1)))) := by
  rw [Form.render_write, List.map_cons, List.zip_map_right]
  rfl

variable {around : Nat} (haround : around + 2 ≤ greatestDepth)
include haround

omit hl in
theorem exists_depth_eq : ∃ depth, greatestDepth - around - 1 = depth + 1 :=
  ⟨greatestDepth - around - 2, by omega⟩

/-- **The two forms of an action** are read as the same action. -/
theorem yields_write (form : Form) (a : Action) :
    Yields (Action.reader around) (.ok a.kept) ((form.write a.parts).render layout d) := by
  obtain ⟨depth, hdepth⟩ := exists_depth_eq haround
  have hyields := yields_enclose hl d hdepth form a.kind
    (readsAll_render (d + 1) (a.reads_values hl (d + 1) depth)) a.length_values
  rw [parts, render_write]
  rwa [ofValues?_values] at hyields

theorem yields_take (a : Action) {n : Nat} (hn : n < a.parts.length) :
    Yields (Action.reader around) (.error .mismatch)
      ((Form.array.write (a.parts.take n)).render layout d) := by
  obtain ⟨depth, hdepth⟩ := exists_depth_eq haround
  have htexts : itemTexts layout (d + 1) (a.parts.take n) =
      (quote a.kind.tag :: a.values.map (Json.render layout (d + 1))).take n := by
    rw [← itemTexts_parts, itemTexts, itemTexts, List.map_take]
  rw [Form.render_write_array, htexts]
  cases n with
  | zero =>
    refine Takes.yields ?_ rfl
    exact takes_item_nil hl _ _
  | succ n =>
    have hnone : ofValues? a.kind (a.values.take n) = none := by
      refine ofValues?_eq_none ?_
      have hlength := a.length_values
      rw [parts, List.length_cons, List.length_zip] at hn
      rw [List.length_take]
      omega
    have hyields := yields_items hl d hdepth a.kind
      (List.forall₂_take n (readsAll_render (d + 1) (a.reads_values hl (d + 1) depth)))
    rwa [hnone] at hyields

/-- **An action with an array that is too long** is a mismatch, if the integers can be kept. -/
theorem yields_overfull (a : Action) {more : List Int} (hmore : more ≠ []) {v : Json}
    (h : a.IsOverfull more v) :
    Yields (Action.reader around) (.error (tooMany more)) (v.render layout d) := by
  obtain ⟨depth, hdepth⟩ := exists_depth_eq haround
  have hreads := a.reads_values hl (d + 1) depth
  cases h with
  | own =>
    have hvalues := readsAll_render (d + 1) hreads
    rw [render_overfull, itemTexts_parts, List.cons_append]
    rcases integerTexts_cases more (depth + 1) with ⟨h, values, htexts⟩ |
      ⟨h, front, text, back, values, heq, hfront, htext⟩
    · have hnone : ofValues? a.kind (a.values ++ values) = none := by
        refine ofValues?_eq_none ?_
        have hlength := htexts.length_eq
        have hpos := List.length_pos_iff.2 (integerTexts_ne_nil hmore)
        have hlength' := a.length_values
        rw [List.length_append]
        omega
      have hyields := yields_items hl d hdepth a.kind (hvalues.append htexts)
      rwa [hnone, outcome, Option.elim_none, ← h] at hyields
    · rw [h, heq, ← List.append_assoc]
      exact yields_items_of_rejects hl d hdepth a.kind (hvalues.append hfront) htext back
  | @point form front back p hpoint =>
    have hlength := a.length_values
    rw [hpoint] at hreads hlength
    obtain ⟨hfront, -, hback⟩ : (∀ v ∈ front, _) ∧ _ ∧ ∀ v ∈ back, _ := by
      simpa only [List.forall_mem_append, List.forall_mem_cons] using hreads
    rw [render_write, List.map_append, List.map_cons]
    rcases p.kept_overfull hl (d + 1) hmore depth with ⟨h, v, hv, hread⟩ | ⟨h, hreject⟩
    · have hvalues := (readsAll_render (d + 1) hfront).append
        (.cons hread (readsAll_render (d + 1) hback))
      have hyields := yields_enclose hl d hdepth form a.kind hvalues (by simpa using hlength)
      rwa [ofValues?_eq_none_of_point hpoint hv, outcome, Option.elim_none, ← h] at hyields
    · rw [h]
      exact yields_enclose_of_rejects hl d hdepth form a.kind (by simpa using hlength)
        (readsAll_render (d + 1) hfront) hreject

end Action

/-! ## Gestures -/

namespace Gesture

/-- The value is the gesture, in one of its forms, with every action in one of its own. -/
def IsParts (g : Gesture) (parts : List (String × Json)) : Prop :=
  ∃ actions, List.Forall₂ Action.IsWritten g.actions actions ∧ parts = g.parts actions

/-- The gesture in one of its forms, with more integers in an array of it.  The flag says that the
array was kept as a value before it is looked at. -/
inductive IsOverfull (g : Gesture) (more : List Int) : Bool → Json → Prop where
  | own {actions : List Json} (h : List.Forall₂ Action.IsWritten g.actions actions) :
      IsOverfull g more false (overfull (g.parts actions) more)
  | start {form : Form} {actions : List Json}
      (h : List.Forall₂ Action.IsWritten g.actions actions) :
      IsOverfull g more false (form.write [("start", overfull g.start.parts more),
        ("delay", g.delay.toJson), ("actions", .array actions)])
  | action {form : Form} {before after : List Action} {a : Action} {front back : List Json}
      {v : Json} (hactions : g.actions = before ++ a :: after)
      (hfront : List.Forall₂ Action.IsWritten before front) (h : a.IsOverfull more v)
      (hback : List.Forall₂ Action.IsWritten after back) :
      IsOverfull g more true (form.write (g.parts (front ++ v :: back)))

theorem readsAll_actions {actions : List Action} {values : List Json}
    (h : List.Forall₂ Action.IsWritten actions values) :
    ReadsAll (Action.reader 2) (values.map (Json.render layout d)) (actions.map Action.kept) := by
  rw [ReadsAll, List.forall₂_map_left_iff, List.forall₂_map_right_iff]
  refine h.flip.imp ?_
  rintro v a ⟨form, rfl⟩
  exact Action.yields_write hl d (by decide) form a

theorem yields_actions {actions : List Action} {values : List Json}
    (h : List.Forall₂ Action.IsWritten actions values) :
    Yields actionsReader (.ok (actions.map Action.kept))
      ((Json.array values).render layout d) := by
  rw [Json.render_array]
  exact Takes.yields (takes_items hl (readsAll_actions hl (d + 1) h)) rfl

theorem yields_actions_overfull {before : List Action} {front : List Json}
    (hfront : List.Forall₂ Action.IsWritten before front) {a : Action} {more : List Int}
    (hmore : more ≠ []) {v : Json} (h : a.IsOverfull more v) (back : List Json) :
    Yields actionsReader (.error (tooMany more))
      ((Json.array (front ++ v :: back)).render layout d) := by
  rw [Json.render_array, List.map_append, List.map_cons]
  exact Takes.yields (takes_items_of_rejects hl (readsAll_actions hl (d + 1) hfront)
    (a.yields_overfull hl (d + 1) (by decide) hmore h) _) rfl

/-- What comes of a gesture is decided by its start, and then by its actions. -/
theorem yields_enclose (form : Form) (t : Duration) {start : Except Fault Point}
    {actions : Except Fault (List Action)} {startText actionsText : List Char}
    (hstart : Yields Point.reader start startText)
    (hactions : Yields actionsReader actions actionsText) :
    Yields Gesture.reader (do return (⟨← start, t.kept, ← actions⟩ : Gesture))
      (form.enclose layout d [("start", startText), ("delay", t.toJson.render layout (d + 1)),
        ("actions", actionsText)]) := by
  have hdelay := t.reads layout (d + 1)
  cases start with
  | error e =>
    cases form with
    | array => exact Takes.yields (takes_item_of_rejects hl hstart _ _) rfl
    | object => exact rejects_braces hl rfl (.nil _) rfl (Rejects.map hstart _) _
  | ok start =>
    have hfront : Collects member {}
        [("start", startText), ("delay", t.toJson.render layout (d + 1))]
        ⟨some start, some t.kept, none⟩ :=
      .cons rfl (Reads.map hstart _) (.cons rfl (hdelay.map _) (.nil _))
    cases actions with
    | error e =>
      cases form with
      | array =>
        exact Takes.yields (takes_item hl hstart <| takes_item hl hdelay <|
          takes_item_of_rejects hl hactions _ _) rfl
      | object => exact rejects_braces hl rfl hfront rfl (Rejects.map hactions _) _
    | ok actions =>
      cases form with
      | array =>
        exact Takes.yields (takes_item hl hstart <| takes_item hl hdelay <|
          takes_item hl hactions <| takes_punctuation hl _) rfl
      | object =>
        have hall : Collects member {} [("start", startText),
            ("delay", t.toJson.render layout (d + 1)), ("actions", actionsText)]
            ⟨some start, some t.kept, some actions⟩ :=
          .cons rfl (Reads.map hstart _) <| .cons rfl (hdelay.map _) <|
            .cons rfl (Reads.map hactions _) (.nil _)
        exact yields_braces hl rfl hall fun rest => rfl

theorem yields_write (form : Form) (g : Gesture) {parts : List (String × Json)}
    (h : g.IsParts parts) :
    Yields Gesture.reader (.ok g.kept) ((form.write parts).render layout d) := by
  obtain ⟨actions, hactions, rfl⟩ := h
  have hstart : Yields Point.reader (.ok g.start) _ := g.start.reads hl (d + 1)
  rw [Form.render_write]
  exact yields_enclose hl d form g.delay hstart (yields_actions hl (d + 1) hactions)

theorem yields_take (g : Gesture) {parts : List (String × Json)} (h : g.IsParts parts) {n : Nat}
    (hn : n < parts.length) : Yields Gesture.reader (.error .mismatch)
      ((Form.array.write (parts.take n)).render layout d) := by
  obtain ⟨actions, -, rfl⟩ := h
  have hstart := g.start.reads hl (d + 1)
  have hdelay := g.delay.reads layout (d + 1)
  rw [Form.render_write_array]
  refine Takes.yields ?_ rfl
  match n, hn with
  | 0, _ => exact takes_item_nil hl _ _
  | 1, _ => exact takes_item hl hstart <| takes_item_nil hl _ _
  | 2, _ => exact takes_item hl hstart <| takes_item hl hdelay <| takes_item_nil hl _ _

theorem yields_overfull (g : Gesture) {more : List Int} (hmore : more ≠ []) {kept : Bool}
    {v : Json} (h : g.IsOverfull more kept v) :
    Yields Gesture.reader (.error (if kept then tooMany more else .malformed))
      (v.render layout d) := by
  have hstart : Yields Point.reader (.ok g.start) _ := g.start.reads hl (d + 1)
  cases h with
  | own h =>
    rw [render_overfull]
    refine Takes.yields ?_ rfl
    exact takes_item hl hstart <| takes_item hl (g.delay.reads layout (d + 1)) <|
      takes_item hl (yields_actions hl (d + 1) h) <| takes_integerTexts d _ hmore
  | start h =>
    rw [Form.render_write]
    exact yields_enclose hl d _ g.delay (g.start.yields_overfull hl (d + 1) hmore)
      (yields_actions hl (d + 1) h)
  | action _ hfront h _ =>
    rw [Form.render_write]
    exact yields_enclose hl d _ g.delay hstart
      (yields_actions_overfull hl (d + 1) hfront hmore h _)

end Gesture

/-! ## Settings -/

namespace Settings

/-- What comes of an array that begins with the timings is decided by what stands behind them. -/
theorem yields_parts_append (s : Settings) {texts : List (List Char)}
    {outcome : Except Fault Settings}
    (h : Takes layout d (punctuation ']' >>= fun _ => pure s.kept) false texts outcome) :
    Yields Settings.reader outcome
      (layout.enclose d '[' ']' (itemTexts layout (d + 1) s.parts ++ texts)) := by
  refine Takes.yields ?_ rfl
  exact takes_itemOr hl (s.longPress.reads layout (d + 1)) <|
    takes_itemOr hl (s.pressed.reads layout (d + 1)) h

theorem yields_write (form : Form) (s : Settings) :
    Yields Settings.reader (.ok s.kept) ((form.write s.parts).render layout d) := by
  cases form with
  | array =>
    rw [Form.render_write_array, ← List.append_nil (itemTexts layout (d + 1) s.parts)]
    exact s.yields_parts_append hl d (takes_punctuation hl s.kept)
  | object => exact s.reads hl d

/-- Settings of which only some parts are given. -/
def shortened (s : Settings) : Nat → Settings
  | 0 => default
  | 1 => { s.kept with pressed := (default : Settings).pressed }
  | _ => s.kept

theorem yields_take (s : Settings) {n : Nat} (hn : n < s.parts.length) :
    Yields Settings.reader (.ok (s.shortened n))
      ((Form.array.write (s.parts.take n)).render layout d) := by
  rw [Form.render_write_array]
  refine Takes.yields ?_ rfl
  match n, hn with
  | 0, _ => exact takes_itemOr_nil hl fun rest => rfl
  | 1, _ =>
    exact takes_itemOr hl (s.longPress.reads layout (d + 1)) <|
      takes_itemOr_nil hl fun rest => rfl

theorem yields_overfull (s : Settings) {more : List Int} (hmore : more ≠ []) :
    Yields Settings.reader (.error .malformed) ((overfull s.parts more).render layout d) := by
  rw [render_overfull]
  exact s.yields_parts_append hl d (takes_integerTexts d _ hmore)

end Settings

/-! ## All kinds of values -/

namespace Document.Kind

/-- The parts of a value that has two forms; the parts of a gesture have some of their own. -/
def IsParts : (k : Kind) → k.Value → List (String × Json) → Prop
  | rect, r, parts => parts = r.parts
  | action, a, parts => parts = a.parts
  | gesture, g, parts => g.IsParts parts
  | settings, s, parts => parts = s.parts
  | _, _, _ => False

/-- What is read of an array with the given number of parts, which is not all of them. -/
def shortened : (k : Kind) → k.Value → Nat → Except Fault k.Value
  | settings, s, n => .ok (s.shortened n)
  | _, _, _ => .error .mismatch

/-- The text of a value has more integers in an array than it should.  The flag says that the array
was kept as a value before it is looked at. -/
def IsOverfull : (k : Kind) → k.Value → List Int → Bool → Json → Prop
  | point, p, more, kept, v => kept = false ∧ v = overfull p.parts more
  | rect, r, more, kept, v => kept = false ∧ v = overfull r.parts more
  | action, a, more, kept, v => kept = true ∧ a.IsOverfull more v
  | gesture, g, more, kept, v => g.IsOverfull more kept v
  | settings, s, more, kept, v => kept = false ∧ v = overfull s.parts more
  | direction, _, _, _, _ => False

variable (k : Kind) {v : k.Value}

theorem yields_write (form : Form) {parts : List (String × Json)} (h : k.IsParts v parts) :
    Yields k.reader (.ok (k.kept v)) ((form.write parts).render layout d) := by
  cases k with
  | point => exact h.elim
  | direction => exact h.elim
  | rect =>
    cases h
    cases form with
    | array => exact Rect.yields_array hl d v
    | object => exact Rect.reads hl d v
  | action =>
    cases h
    exact Action.yields_write hl d (by decide) form v
  | gesture => exact Gesture.yields_write hl d form v h
  | settings =>
    cases h
    exact Settings.yields_write hl d form v

theorem yields_take {parts : List (String × Json)} (h : k.IsParts v parts) {n : Nat}
    (hn : n < parts.length) : Yields k.reader (k.shortened v n)
      ((Form.array.write (parts.take n)).render layout d) := by
  cases k with
  | point => exact h.elim
  | direction => exact h.elim
  | rect =>
    cases h
    exact Rect.yields_take hl d v hn
  | action =>
    cases h
    exact Action.yields_take hl d (by decide) v hn
  | gesture => exact Gesture.yields_take hl d v h hn
  | settings =>
    cases h
    exact Settings.yields_take hl d v hn

theorem yields_overfull {more : List Int} (hmore : more ≠ []) {kept : Bool} {w : Json}
    (h : k.IsOverfull v more kept w) :
    Yields k.reader (.error (if kept then tooMany more else .malformed)) (w.render layout d) := by
  cases k with
  | point =>
    obtain ⟨rfl, rfl⟩ := h
    exact Point.yields_overfull hl d v hmore
  | direction => exact h.elim
  | rect =>
    obtain ⟨rfl, rfl⟩ := h
    exact Rect.yields_overfull hl d v hmore
  | action =>
    obtain ⟨rfl, h⟩ := h
    exact Action.yields_overfull hl d (by decide) v hmore h
  | gesture => exact Gesture.yields_overfull hl d v hmore h
  | settings =>
    obtain ⟨rfl, rfl⟩ := h
    exact Settings.yields_overfull hl d v hmore

/-- **The two forms agree**, in every layout that adds blanks only, and for a gesture in every
mixture of forms of its actions.  An array that lacks some of its last parts is a mismatch, or has
the defaults of settings.  An array with more integers behind its parts is malformed, or, where it
was kept as a value first, a mismatch, unless one of the integers is oversized, which is to say that
its magnitude is `leastOversized` or more.

Durations are written as numbers, and every number below `2 ^ 64` is that of some duration
(`Duration.exists_written_eq`). -/
theorem parse_forms (v : k.Value) :
    (∀ parts, k.IsParts v parts →
      (∀ form : Form, k.reader.parse (String.ofList ((form.write parts).render layout 0)) =
        .ok (k.kept v)) ∧
      ∀ n < parts.length,
        k.reader.parse (String.ofList ((Form.array.write (parts.take n)).render layout 0)) =
          k.shortened v n) ∧
    ∀ more kept w, more ≠ [] → k.IsOverfull v more kept w →
      k.reader.parse (String.ofList (w.render layout 0)) =
        .error (if kept = true ∧ ∀ n ∈ more, ¬ IsOversized n then .mismatch else .malformed) := by
  refine ⟨fun parts h => ⟨fun form => (k.yields_write hl 0 form h).parse,
    fun n hn => (k.yields_take hl 0 h hn).parse⟩, fun more kept w hmore h => ?_⟩
  rw [(k.yields_overfull hl 0 hmore h).parse]
  cases kept <;> simp [tooMany]

omit hl in
/-- A gesture with an action in each form, and with integers too many in a point of the second: the
greatest one that is kept; below zero, the first that is not; and, behind one that is kept, the
greatest finite number of double precision. -/
theorem parse_forms_mixed :
    let pause : Action := .pause ⟨1, 2⟩ (.ofMillis 3)
    let move : Action := .move ⟨1, 2⟩ ⟨4, 5⟩ .longest
    let g : Gesture := ⟨⟨1, 2⟩, .zero, [pause, move]⟩
    let parts := g.parts [Form.array.write pause.parts, Form.object.write move.parts]
    let w (more : List Int) := Form.array.write (g.parts [Form.array.write pause.parts,
      Form.object.write [("action", .string "move"), ("from", overfull (Point.parts ⟨1, 2⟩) more),
        ("to", (⟨4, 5⟩ : Point).toJson), ("duration", Duration.longest.toJson)]])
    let outcome (v : Json) := Gesture.reader.parse (String.ofList (v.render .compact 0))
    Layout.compact.AddsBlanks ∧ gesture.IsParts g parts ∧
      (∀ more, gesture.IsOverfull g more true (w more)) ∧
      outcome (Form.array.write parts) = .ok g ∧
      outcome (w [leastOversized - 1]) = .error .mismatch ∧
      outcome (w [-leastOversized]) = .error .malformed ∧
      outcome (w [9, (2 ^ 53 - 1) * 2 ^ 971]) = .error .malformed := by
  intro pause move g parts w outcome
  have hl := Json.Layout.addsBlanks_compact
  have hparts : gesture.IsParts g parts :=
    ⟨_, .cons ⟨.array, rfl⟩ (.cons ⟨.object, rfl⟩ .nil), rfl⟩
  have hmove (more : List Int) : move.IsOverfull more (Form.object.write
      (("action", .string move.kind.tag) :: move.kind.keys.zip
        ([] ++ overfull (Point.parts ⟨1, 2⟩) more ::
          [(⟨4, 5⟩ : Point).toJson, Duration.longest.toJson]))) := .point rfl
  have hactions : g.actions = [pause] ++ move :: [] := rfl
  have hoverfull (more : List Int) : gesture.IsOverfull g more true (w more) :=
    Gesture.IsOverfull.action hactions (.cons ⟨.array, rfl⟩ .nil) (hmove more) .nil
  obtain ⟨hforms, hmore⟩ := parse_forms hl gesture g
  have hg : gesture.kept g = g := by decide +kernel
  have houtcome {more : List Int} (hne : more ≠ []) : outcome (w more) =
      .error (if ∀ n ∈ more, ¬ IsOversized n then .mismatch else .malformed) := by
    have hparse := hmore more true (w more) hne (hoverfull more)
    simp only [true_and] at hparse
    exact hparse
  refine ⟨hl, hparts, hoverfull, hg ▸ (hforms parts hparts).1 .array, ?_, ?_, ?_⟩
  · rw [houtcome (List.cons_ne_nil _ _), if_pos (by decide +kernel)]
  · rw [houtcome (List.cons_ne_nil _ _), if_neg (by decide +kernel)]
  · rw [houtcome (List.cons_ne_nil _ _), if_neg (by decide +kernel)]

omit hl in
/-- A pause in an array with an oversized power of ten behind its values: not every integer too many
is a mismatch. -/
theorem not_forall_parse_overfull_eq_mismatch :
    ¬ ∀ (a : Action) (more : List Int), more ≠ [] →
      (Action.reader 0).parse (overfull a.parts more).compact = .error .mismatch := by
  intro h
  let a : Action := .pause ⟨1, 2⟩ (.ofMillis 3)
  let more : List Int := [10 ^ 200 * 10 ^ 200]
  have hmore : more ≠ [] := List.cons_ne_nil _ _
  have hyields := a.yields_overfull Json.Layout.addsBlanks_compact 0 (show 0 + 2 ≤ _ by decide)
    hmore .own
  have hmalformed : tooMany more = .malformed := by decide +kernel
  have hparse := h a more hmore
  rw [Json.compact, hyields.parse, hmalformed] at hparse
  cases hparse

end Document.Kind

end PointerMotion
