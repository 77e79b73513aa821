import PointerMotion.Proofs.Json.Cut

/-!
# Arrays, objects and values that are cut

Wherever the text of a container is cut, its reader starves.  The cut is followed through what is
pending of the container (`Layout.pending`): it is in what separates two items, or in an item, or
behind it, and then less is pending.  An item need not have an end of its own, so it only has to be
exhausted; if the cut is in it, the separator that should follow it is missing.

In an object there is one more thing to ask.  Which reader a member has depends on its key and on
the members before it, so the statement is about members that are collected (`Collects`), and each
of the readers that the key of a member may have has to exhaust its value.
-/

namespace PointerMotion.Json.Reader

variable {α β ι σ : Type} {layout : Layout}

/-! ## What is pending -/

/-- Something is always pending, if only a bracket. -/
theorem pending_ne_nil (layout : Layout) (depth : Nat) (last : Char) (first : Bool)
    (texts : List (List Char)) : layout.pending depth last first texts ≠ [] := by
  cases texts with
  | nil => cases first <;> simp [Layout.pending]
  | cons text texts =>
    rw [Layout.pending]
    exact List.append_ne_nil_of_right_ne_nil _
      (List.append_ne_nil_of_right_ne_nil _ (pending_ne_nil layout depth last false texts))

theorem delimited_pending_self (hl : layout.AddsBlanks) (depth : Nat) {last : Char}
    (hlast : isDelimiter last = true) (texts : List (List Char)) :
    Delimited (layout.pending depth last false texts) := by
  have h := delimited_pending hl depth hlast texts []
  rwa [List.append_nil] at h

/-- Before a closing bracket there are blanks only. -/
theorem isCut_pending_nil (hl : layout.AddsBlanks) {depth : Nat} {last : Char} {first : Bool}
    {cut : List Char} (h : IsCut cut (layout.pending depth last first [])) : Blank cut := by
  obtain ⟨blanks, hb, hpending⟩ :
      ∃ blanks, Blank blanks ∧ layout.pending depth last first [] = blanks ++ [last] := by
    cases first with
    | true => exact ⟨[], blank_nil, rfl⟩
    | false => exact ⟨_, hl.newline depth, rfl⟩
  rw [hpending] at h
  obtain ⟨left, cut', hleft, hcut, rfl⟩ := h.of_blank_append hb (List.cons_ne_nil _ _)
  rcases isCut_cons_iff.1 hcut with rfl | ⟨_, rfl, hnil⟩
  · rwa [List.append_nil]
  · exact absurd hnil not_isCut_nil

/-- Where what is pending may be cut: at once, or behind a separator and some blanks. -/
theorem isCut_pending_cons (hl : layout.AddsBlanks) {depth : Nat} {last : Char} {first : Bool}
    {text : List Char} {texts : List (List Char)} {cut : List Char}
    (h : IsCut cut (layout.pending depth last first (text :: texts))) :
    cut = [] ∨ ∃ blanks cut', Blank blanks ∧
      IsCut cut' (text ++ layout.pending depth last false texts) ∧
        cut = (if first then [] else [',']) ++ (blanks ++ cut') := by
  rw [Layout.pending, List.append_assoc] at h
  rcases h.of_append with hcut | ⟨behind, rfl, hbehind⟩
  · cases first with
    | true => exact absurd hcut not_isCut_nil
    | false =>
      rcases isCut_cons_iff.1 hcut with rfl | ⟨_, rfl, hnil⟩
      · exact .inl rfl
      · exact absurd hnil not_isCut_nil
  · have hne := List.append_ne_nil_of_right_ne_nil text
      (pending_ne_nil layout depth last false texts)
    obtain ⟨left, cut', hleft, hcut', rfl⟩ :=
      hbehind.of_blank_append (hl.newline (depth + 1)) hne
    exact .inr ⟨left, cut', hleft, hcut', rfl⟩

theorem hasItem_of_blank {blanks : List Char} (hb : Blank blanks) (first : Bool) :
    hasItem first blanks = .error .truncated :=
  bind_of_error (peek_of_blank hb)

theorem hasMember_of_blank {blanks : List Char} (hb : Blank blanks) (first : Bool) :
    hasMember first blanks = .error .truncated :=
  bind_of_error (peek_of_blank hb)

theorem hasItem_separator {blanks : List Char} (hb : Blank blanks) (first : Bool) :
    hasItem first ((if first then [] else [',']) ++ blanks) = .error .truncated := by
  cases first with
  | true => exact hasItem_of_blank hb true
  | false =>
    change hasItem false (',' :: blanks) = .error .truncated
    rw [hasItem, bind_of_ok (peek_cons rfl _)]
    show (discard take >>= fun _ => _) _ = _
    rw [bind_of_ok (discard_take_cons _ _)]
    exact bind_of_error (peek_of_blank hb)

theorem hasMember_separator {blanks : List Char} (hb : Blank blanks) (first : Bool) :
    hasMember first ((if first then [] else [',']) ++ blanks) = .error .truncated := by
  cases first with
  | true => exact hasMember_of_blank hb true
  | false =>
    change hasMember false (',' :: blanks) = .error .truncated
    rw [hasMember, bind_of_ok (peek_cons rfl _)]
    show (discard take >>= fun _ => _) _ = _
    rw [bind_of_ok (discard_take_cons _ _)]
    exact bind_of_error (peek_of_blank hb)

theorem punctuation_cut (hl : layout.AddsBlanks) {depth : Nat} {last : Char} {first : Bool}
    {cut : List Char} (h : IsCut cut (layout.pending depth last first [])) :
    punctuation last cut = .error .truncated :=
  bind_of_error (peek_of_blank (isCut_pending_nil hl h))

/-! ## Arrays -/

/-- Whether there is another item cannot be told, or there is, and it or what stands behind it is
cut. -/
theorem hasItem_cut (hl : layout.AddsBlanks) {depth : Nat} {first : Bool} {text : List Char}
    (ht : Begins text) {texts : List (List Char)} {cut : List Char}
    (h : IsCut cut (layout.pending depth ']' first (text :: texts))) :
    hasItem first cut = .error .truncated ∨ ∃ cut', hasItem first cut = .ok (true, cut') ∧
      cut'.length ≤ cut.length ∧ IsCut cut' (text ++ layout.pending depth ']' false texts) := by
  rcases isCut_pending_cons hl h with rfl | ⟨blanks, cut', hb, hcut, rfl⟩
  · exact .inl (hasItem_of_blank blank_nil first)
  · cases cut' with
    | nil =>
      rw [List.append_nil]
      exact .inl (hasItem_separator hb first)
    | cons c cut' =>
      refine .inr ⟨c :: cut', hasItem_of_begins hb ?_ first, ?_, hcut⟩
      · obtain ⟨d, ds, rfl, hd, hne⟩ := ht
        obtain ⟨e, rest, htext⟩ := hcut
        obtain ⟨rfl, -⟩ := List.cons.inj htext
        exact ⟨d, cut', rfl, hd, hne⟩
      · rw [List.length_append, List.length_append]
        omega

theorem item_cut (hl : layout.AddsBlanks) {r : Reader α} {a : α} {text : List Char}
    (hr : Reads r a text) (h : Exhausts r text) {depth : Nat} {first : Bool}
    {texts : List (List Char)} {cut : List Char}
    (hcut : IsCut cut (layout.pending depth ']' first (text :: texts))) :
    CutOutcome (item first r) cut a (layout.pending depth ']' false texts) := by
  rcases hasItem_cut hl hr.begins hcut with hnone | ⟨cut', hmore, hle, hcut'⟩
  · exact .truncated (bind_of_error hnone)
  · have hdelimited := delimited_pending_self hl depth (show isDelimiter ']' = true from rfl) texts
    exact (h.cutOutcome hr hdelimited blank_nil hcut').of_run (bind_of_ok hmore) hle

/-- The items that are left are taken up to the cut. -/
theorem stalls_items (hl : layout.AddsBlanks) (depth : Nat) {r : Reader α}
    {text : ι → List Char} (first : Bool) (xs : List ι)
    (h : ∀ x ∈ xs, ∃ a, Reads r a (text x) ∧ Exhausts r (text x)) (taken : List α)
    {cut : List Char}
    (hcut : IsCut cut (layout.pending depth ']' (first && taken.isEmpty) (xs.map text))) :
    Stalls (itemStep first r) .truncated taken cut := by
  induction xs generalizing taken cut with
  | nil => exact .now (bind_of_error (hasItem_of_blank (isCut_pending_nil hl hcut) _))
  | cons x xs ih =>
    obtain ⟨⟨a, hr, hexhausts⟩, hrest⟩ := List.forall_mem_cons.1 h
    rcases hasItem_cut hl hr.begins hcut with hnone | ⟨cut', hmore, hle, hcut'⟩
    · exact .now (bind_of_error hnone)
    · have hdelimited := delimited_pending_self hl depth (show isDelimiter ']' = true from rfl)
        (xs.map text)
      refine (hexhausts.cutOutcome hr hdelimited blank_nil hcut').stalls (bind_of_ok hmore) hle
        (fun taken => bind_of_error (hasItem_of_blank blank_nil _)) fun rest hcut => ?_
      refine ih hrest (a :: taken) ?_
      rwa [List.isEmpty_cons, Bool.and_false]

/-- **An array that is cut anywhere is not finished.** -/
theorem array_cut (hl : layout.AddsBlanks) {depth : Nat} {r : Reader α}
    {text : ι → List Char} {xs : List ι}
    (h : ∀ x ∈ xs, ∃ a, Reads r a (text x) ∧ Exhausts r (text x)) {cut : List Char}
    (hcut : IsCut cut (layout.pending depth ']' true (xs.map text))) :
    array r ('[' :: cut) = .error .truncated := by
  rw [array, bind_of_ok (discard_take_cons _ _), items]
  refine bind_of_error (loop_of_stalls (stalls_items hl depth true xs h [] ?_))
  rwa [List.isEmpty_nil, Bool.and_true]

/-! ## Objects -/

theorem hasMember_cut (hl : layout.AddsBlanks) {depth : Nat} {first : Bool} {key : String}
    {text : List Char} {texts : List (List Char)} {cut : List Char}
    (h : IsCut cut (layout.pending depth '}' first (layout.member key text :: texts))) :
    hasMember first cut = .error .truncated ∨ ∃ cut', hasMember first cut = .ok (true, cut') ∧
      cut'.length ≤ cut.length ∧
        IsCut cut' (layout.member key text ++ layout.pending depth '}' false texts) := by
  rcases isCut_pending_cons hl h with rfl | ⟨blanks, cut', hb, hcut, rfl⟩
  · exact .inl (hasMember_of_blank blank_nil first)
  · cases cut' with
    | nil =>
      rw [List.append_nil]
      exact .inl (hasMember_separator hb first)
    | cons c cut' =>
      obtain ⟨d, rest, htext⟩ := id hcut
      obtain ⟨rfl, -⟩ := List.cons.inj htext
      refine .inr ⟨_, hasMember_of_quote hb first cut', ?_, hcut⟩
      rw [List.length_append, List.length_append]
      omega

/-- A member and what stands behind it, cut together: its key is cut, or the colon is missing, or
its value is cut, or the cut is behind the value. -/
theorem member_cut (hl : layout.AddsBlanks) {r : Reader α} {a : α} {text tail : List Char}
    (hr : Reads r a text) (h : Exhausts r text) (ht : Delimited tail) {key : String}
    {cut : List Char} (hcut : IsCut cut (layout.member key text ++ tail)) :
    quoted cut = .error .truncated ∨ ∃ mid, quoted cut = .ok (key, mid) ∧
      (punctuation ':' mid = .error .truncated ∨ ∃ mid', punctuation ':' mid = .ok ((), mid') ∧
        mid'.length ≤ cut.length ∧ CutOutcome r mid' a tail) := by
  obtain ⟨blanks, hcolon, hblanks⟩ := hl.colon
  rw [Layout.member, List.append_assoc, List.append_assoc, hcolon] at hcut
  rcases hcut.of_append with hcut | ⟨mid, rfl, hmid⟩
  · exact .inl (quoted_cut hcut)
  · refine .inr ⟨mid, quoted_quote key mid, ?_⟩
    rcases isCut_cons_iff.1 hmid with rfl | ⟨mid', rfl, hmid'⟩
    · exact .inl rfl
    · have hne : text ++ tail ≠ [] := by
        obtain ⟨c, cs, rfl, -⟩ := hr.begins
        exact List.cons_ne_nil _ _
      obtain ⟨left, cut', hleft, hcut', rfl⟩ := hmid'.of_blank_append hblanks hne
      refine .inr ⟨_, punctuation_cons rfl _, ?_, h.cutOutcome hr ht hleft hcut'⟩
      simp only [List.length_append, List.length_cons]
      omega

/-- The members that are left are taken up to the cut. -/
theorem stalls_members (hl : layout.AddsBlanks) (depth : Nat)
    {member : String → σ → Except Fault (Reader σ)} {s s' : σ}
    {members : List (String × List Char)} (h : Collects member s members s')
    (hexhausts : ∀ m ∈ members, ∀ s r, member m.1 s = .ok r → Exhausts r m.2) (first : Bool)
    {cut : List Char}
    (hcut : IsCut cut (layout.pending depth '}' first (memberTexts layout members))) :
    Stalls (memberStep quoted member) .truncated (first, s) cut := by
  induction h generalizing first cut with
  | nil s => exact .now (bind_of_error (hasMember_of_blank (isCut_pending_nil hl hcut) first))
  | @cons s s' s'' key text r members hmember hr hrest ih =>
    obtain ⟨hvalue, hvalues⟩ := List.forall_mem_cons.1 hexhausts
    rw [memberTexts_cons] at hcut
    rcases hasMember_cut hl hcut with hnone | ⟨cut', hmore, hle, hcut'⟩
    · exact .now (bind_of_error hnone)
    · have hdelimited := delimited_pending_self hl depth (show isDelimiter '}' = true from rfl)
        (memberTexts layout members)
      have hlift (mid : List Char) :
          (liftM (member key s) : Reader (Reader σ)) mid = .ok (r, mid) := by
        rw [hmember]
        rfl
      rcases member_cut hl hr (hvalue s r hmember) hdelimited hcut' with
        hkey | ⟨mid, hkey, hcolon | ⟨mid', hcolon, hle', hout⟩⟩
      · exact .now ((bind_of_ok hmore).trans (bind_of_error hkey))
      · exact .now ((bind_of_ok hmore).trans ((bind_of_ok hkey).trans
          ((bind_of_ok (hlift mid)).trans (bind_of_error hcolon))))
      · refine hout.stalls ((bind_of_ok hmore).trans ((bind_of_ok hkey).trans
          ((bind_of_ok (hlift mid)).trans (bind_of_ok hcolon)))) (hle'.trans hle) ?_
          fun rest hcut => ?_
        · rintro ⟨first, s⟩
          exact bind_of_error (hasMember_of_blank blank_nil first)
        · exact ih hvalues false hcut

/-- **An object that is cut anywhere is not finished.** -/
theorem starves_braces (hl : layout.AddsBlanks) (depth : Nat) {f : Char → Reader α}
    {g : σ → Reader α} {member : String → σ → Except Fault (Reader σ)} {s s' : σ}
    {members : List (String × List Char)} (hf : f '{' = object member s >>= g)
    (h : Collects member s members s')
    (hexhausts : ∀ m ∈ members, ∀ s r, member m.1 s = .ok r → Exhausts r m.2) :
    Starves (peek >>= f) (layout.enclose depth '{' '}' (memberTexts layout members)) := by
  rw [Layout.enclose_eq]
  refine starves_peek rfl fun cut hcut => ?_
  rw [hf, object, objectWith]
  have hloop := loop_of_stalls (stalls_members hl depth h hexhausts true hcut)
  refine bind_of_error ?_
  rw [bind_of_ok (discard_take_cons _ _)]
  exact bind_of_error hloop

/-- A member that may occur once is exhausted if its value is. -/
theorem exhausts_once {before : Option α} {r : Reader α} {put : α → σ} {text : List Char}
    (h : Exhausts r text) : ∀ r', once before r put = .ok r' → Exhausts r' text := by
  intro r' hr'
  cases before with
  | some _ => cases hr'
  | none =>
    cases hr'
    exact h.map put

/-! ## Values -/

theorem value_of_blank {blanks : List Char} (hb : Blank blanks) (depth : Nat) :
    value depth blanks = .error .truncated := by
  cases depth <;> exact bind_of_error (peek_of_blank hb)

/-- A value that opens no container starves if the reader of scalars does. -/
theorem starves_value {c : Char} {text : List Char} (hc : isBlank c = false) (hbracket : c ≠ '[')
    (hbrace : c ≠ '{') (h : ∀ cut, IsCut cut text → scalar (c :: cut) = .error .truncated)
    (depth : Nat) : Starves (value depth) (c :: text) where
  run := by
    intro blanks cut hb hcut
    rcases isCut_cons_iff.1 hcut with rfl | ⟨cut', rfl, hcut'⟩
    · rw [List.append_nil]
      exact value_of_blank hb depth
    · rw [value_eq_scalar hb hc hbracket hbrace]
      exact h cut' hcut'

/-- A literal or a string is not finished, wherever it is cut; an integer may be. -/
theorem exhausts_value_scalar (layout : Layout) (d : Nat) {v : Json} (hv : v.Fits 0)
    (depth : Nat) : Exhausts (value depth) (v.render layout d) := by
  cases v with
  | null =>
    refine (starves_value rfl (by decide) (by decide) (fun cut hcut => ?_) depth).exhausts
    rw [scalar, scalarWith, bind_of_ok (peek_cons rfl _)]
    exact bind_of_error (literal_cut hcut.cons)
  | bool b =>
    cases b <;>
    · refine (starves_value rfl (by decide) (by decide) (fun cut hcut => ?_) depth).exhausts
      rw [scalar, scalarWith, bind_of_ok (peek_cons rfl _)]
      exact bind_of_error (literal_cut hcut.cons)
  | number n =>
    cases n with
    | integer n =>
      refine exhausts_integer_text (fun blanks hb => value_of_blank hb depth)
        (fun blanks hb => ?_) fun m hle hm => ?_
      · rw [value_eq_scalar hb rfl (by decide) (by decide)]
        rfl
      · exact ⟨_, reads_value_scalar layout d (v := .integer m) (hv.of_le hle hm) depth⟩
    | decimal => exact hv.elim
  | string s =>
    refine (starves_value rfl (by decide) (by decide) (fun cut hcut => ?_) depth).exhausts
    rw [scalar, scalarWith, bind_of_ok (peek_cons rfl _)]
    exact map_of_error _ (quoted_cut hcut.cons)
  | array => exact hv.elim
  | object => exact hv.elim

/-- **A value that is cut is exhausted**, if it fits. -/
theorem exhausts_value (hl : layout.AddsBlanks) {depth : Nat} {v : Json} (hv : v.Fits depth)
    (d : Nat) : Exhausts (value depth) (v.render layout d) := by
  induction depth generalizing v d with
  | zero => exact exhausts_value_scalar layout d hv 0
  | succ depth ih =>
    cases v with
    | array items =>
      rw [render_array, Layout.enclose_eq]
      refine (starves_peek rfl fun cut hcut => ?_).exhausts
      refine bind_of_error (array_cut hl (fun v hi => ?_) hcut)
      exact ⟨v, reads_value hl (hv v hi) (d + 1), ih (hv v hi) (d + 1)⟩
    | object ms =>
      have hcollects := collects_members (d + 1) (fun m hm => reads_value hl (hv m hm) (d + 1)) []
      rw [List.append_nil] at hcollects
      rw [render_object]
      refine (starves_braces hl d (by rw [members, bind_assoc]; rfl) hcollects ?_).exhausts
      rintro _ hmem before r ⟨⟩
      obtain ⟨m, hm, rfl⟩ := List.mem_map.1 hmem
      exact (ih (hv m hm) (d + 1)).map _
    | null => exact exhausts_value_scalar layout d (v := .null) trivial (depth + 1)
    | bool b => exact exhausts_value_scalar layout d (v := .bool b) trivial (depth + 1)
    | string s => exact exhausts_value_scalar layout d (v := .string s) trivial (depth + 1)
    | number n =>
      cases n with
      | integer n => exact exhausts_value_scalar layout d (v := .integer n) hv (depth + 1)
      | decimal => exact hv.elim

end PointerMotion.Json.Reader
