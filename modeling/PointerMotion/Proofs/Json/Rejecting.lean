import PointerMotion.Proofs.Json.Oversized
import PointerMotion.Proofs.Json.Value

/-!
# What a reader rejects, and with which fault

The first part of a container that is rejected decides the fault of the container.

An array of a fixed shape is asked for item by item, so there are three ways in which its text may
be too short, too long or wrong, and `Takes` follows the reader through all of them: it says what
comes of the items that are pending, be it a value or a fault.

## Large integers

Where values are kept, integers that do not fit in 64 bits are kept as decimals, so they are as good
as any other number.  There is a limit: an oversized integer (`IsOversized`) is no number at all,
and is rejected as malformed.
-/

namespace PointerMotion.Json.Reader

variable {α β ι σ : Type}

variable {e : Fault} {text : List Char}

/-- A reader that first looks at the next character need only be studied without blanks. -/
theorem rejects_peek {f : Char → Reader α} {c : Char} (hc : isBlank c = false) (hc' : c ≠ ']')
    (h : ∀ rest, Delimited rest → f c (c :: (text ++ rest)) = .error e) :
    Rejects (peek >>= f) e (c :: text) where
  begins := ⟨c, text, rfl, hc, hc'⟩
  run := by
    intro blanks rest hb hr
    rw [List.cons_append, bind_of_ok (peek_blank hb hc _)]
    exact h rest hr

theorem Rejects.bind {r : Reader α} (h : Rejects r e text) (f : α → Reader β) :
    Rejects (r >>= f) e text where
  begins := h.begins
  run hb hr := bind_of_error (h.run hb hr)

theorem Rejects.map {r : Reader α} (h : Rejects r e text) (f : α → β) :
    Rejects (f <$> r) e text where
  begins := h.begins
  run hb hr := map_of_error f (h.run hb hr)

theorem Rejects.parse {r : Reader α} (h : Rejects r e text) :
    r.parse (String.ofList text) = .error e := by
  have hrun := h.run blank_nil delimited_nil
  rw [List.append_nil, List.nil_append] at hrun
  rw [Reader.parse, String.toList_ofList, hrun]
  rfl

/-- The reader takes the text for a value, or fails at it. -/
def Yields (r : Reader α) (o : Except Fault α) (text : List Char) : Prop :=
  match o with
  | .ok a => Reads r a text
  | .error e => Rejects r e text

theorem Yields.parse {r : Reader α} {o : Except Fault α} (h : Yields r o text) :
    r.parse (String.ofList text) = o := by
  cases o with
  | ok a => exact Reads.parse h
  | error e => exact Rejects.parse h

/-! ## Items -/

section

variable {left inner rest : List Char}

/-- Items are taken one by one, up to one that is rejected. -/
theorem stalls_itemStep (hinner : Blank inner) {r : Reader α} {front : List Item} {i : Item}
    {as : List α} (hfront : List.Forall₂ (fun i a => Reads r a i.text) front as)
    (hi : Rejects r e i.text) (back : List Item) (hleft : Blank left) (first : Bool)
    (taken : List α) (rest : List Char) :
    Stalls (itemStep first r) e taken
      (left ++ (remainder inner ']' (first && taken.isEmpty)
        ((front ++ i :: back).map Item.whole) ++ rest)) := by
  induction hfront generalizing left taken with
  | nil =>
    refine .now ?_
    rw [List.nil_append, List.map_cons, itemStep,
      bind_of_ok (hasItem_remainder_cons hleft hi.begins _ _ rest)]
    exact bind_of_error (hi.run blank_nil
      (delimited_remainder i.blank_after hinner ']' rfl _ rest))
  | @cons i' a front as hi' _ ih =>
    have hrest := ih i'.blank_after (a :: taken)
    rw [List.isEmpty_cons, Bool.and_false] at hrest
    refine .next (itemStep_cons hleft hinner hi' first taken _ rest) ?_ hrest
    obtain ⟨c, cs, hcs, -, -⟩ := hi'.begins
    simp only [List.cons_append, List.append_eq, List.map_cons, remainder, Item.whole, hcs,
      List.length_append, List.length_cons]
    omega

theorem items_remainder_of_rejects (hleft : Blank left) (hinner : Blank inner) {r : Reader α}
    {front back : List Item} {i : Item} {as : List α}
    (hfront : List.Forall₂ (fun i a => Reads r a i.text) front as) (hi : Rejects r e i.text)
    (first : Bool) (rest : List Char) :
    items first r (left ++ (remainder inner ']' first ((front ++ i :: back).map Item.whole) ++
      rest)) = .error e := by
  have hstalls := stalls_itemStep hinner hfront hi back hleft first [] rest
  rw [List.isEmpty_nil, Bool.and_true] at hstalls
  exact bind_of_error (loop_of_stalls hstalls)

end

/-! ## Arrays that are set out -/

/-- Each of the texts is read as the value in its place. -/
def ReadsAll (r : Reader α) (texts : List (List Char)) (as : List α) : Prop :=
  List.Forall₂ (fun text a => Reads r a text) texts as

theorem ReadsAll.append {r : Reader α} {texts texts' : List (List Char)} {as as' : List α}
    (h : ReadsAll r texts as) (h' : ReadsAll r texts' as') :
    ReadsAll r (texts ++ texts') (as ++ as') :=
  List.rel_append h h'

/-- **What comes of the items that are pending**: a value, or a fault. -/
def Takes (layout : Layout) (depth : Nat) (r : Reader α) (first : Bool)
    (texts : List (List Char)) (outcome : Except Fault α) : Prop :=
  ∀ rest, r (layout.pending depth ']' first texts ++ rest) = outcome.map fun a => (a, rest)

section

variable {layout : Layout} (hl : layout.AddsBlanks) {depth : Nat} {first : Bool}
  {texts : List (List Char)} {outcome : Except Fault β}
include hl

theorem takes_item {r : Reader α} {f : α → Reader β} {a : α} (h : Reads r a text)
    (hf : Takes layout depth (f a) false texts outcome) :
    Takes layout depth (item first r >>= f) first (text :: texts) outcome := fun rest =>
  (bind_of_ok (item_pending hl h depth first texts rest)).trans (hf rest)

theorem takes_item_nil (r : Reader α) (f : α → Reader β) :
    Takes layout depth (item first r >>= f) first [] (.error .mismatch) := fun rest =>
  bind_of_error (bind_of_ok (hasItem_pending_nil hl depth first rest))

theorem takes_item_of_rejects {r : Reader α} (h : Rejects r e text) (f : α → Reader β)
    (texts : List (List Char)) :
    Takes layout depth (item first r >>= f) first (text :: texts) (.error e) := fun rest => by
  refine bind_of_error ((bind_of_ok (hasItem_pending_cons hl h.begins depth first texts rest)).trans
    ?_)
  exact h.run blank_nil (delimited_pending hl depth rfl texts rest)

theorem takes_itemOr {r : Reader α} {f : α → Reader β} {a default : α} (h : Reads r a text)
    (hf : Takes layout depth (f a) false texts outcome) :
    Takes layout depth (itemOr first default r >>= f) first (text :: texts) outcome := fun rest =>
  (bind_of_ok ((bind_of_ok (hasItem_pending_cons hl h.begins depth first texts rest)).trans
    (h.run_front (delimited_pending hl depth rfl texts rest)))).trans (hf rest)

/-- Items that are missing have their defaults, one after the other. -/
theorem takes_itemOr_nil {r : Reader α} {f : α → Reader β} {default : α}
    (hf : ∀ rest, f default (']' :: rest) = outcome.map fun b => (b, rest)) :
    Takes layout depth (itemOr first default r >>= f) first [] outcome := fun rest =>
  (bind_of_ok (bind_of_ok (hasItem_pending_nil hl depth first rest))).trans (hf rest)

theorem takes_punctuation (b : β) :
    Takes layout depth (punctuation ']' >>= fun _ => pure b) false [] (.ok b) := fun rest =>
  bind_of_ok (punctuation_pending_nil hl depth rfl rest)

omit hl in
/-- Where the bracket should be, another item is malformed. -/
theorem takes_punctuation_cons (r : Reader β) (text : List Char) (texts : List (List Char)) :
    Takes layout depth (punctuation ']' >>= fun _ => r) false (text :: texts)
      (.error .malformed) := fun rest => by
  rw [Layout.pending_eq_remainder]
  exact bind_of_error (punctuation_remainder_cons blank_nil _ _ rest)

omit hl in
/-- What is done after all items were taken is done to what came of them. -/
theorem Takes.bind {r : Reader α} {f : α → Reader β} {a : α}
    (h : Takes layout depth r first texts (.ok a))
    (hf : ∀ rest, f a rest = outcome.map fun b => (b, rest)) :
    Takes layout depth (r >>= f) first texts outcome := fun rest =>
  (bind_of_ok (h rest)).trans (hf rest)

omit hl in
theorem Takes.bind_error {r : Reader α} (h : Takes layout depth r first texts (.error e))
    (f : α → Reader β) : Takes layout depth (r >>= f) first texts (.error e) := fun rest =>
  bind_of_error (h rest)

theorem takes_items {r : Reader α} {as : List α}
    (h : ReadsAll r texts as) :
    Takes layout depth (items first r) first texts (.ok as) := fun rest => by
  rw [Layout.pending_eq_items hl]
  refine items_remainder blank_nil (hl.blank_closing depth first texts) ?_ first rest
  rwa [List.forall₂_map_left_iff]

theorem takes_items_of_rejects {r : Reader α} {front : List (List Char)} {as : List α}
    (hfront : ReadsAll r front as) (h : Rejects r e text) (back : List (List Char)) :
    Takes layout depth (items first r) first (front ++ text :: back) (.error e) := fun rest => by
  have hfront' : List.Forall₂ (fun i a => Reads r a i.text) (front.map (hl.item depth)) as :=
    List.forall₂_map_left_iff.2 hfront
  rw [Layout.pending_eq_items hl, List.map_append, List.map_cons]
  exact items_remainder_of_rejects blank_nil (hl.blank_closing depth first _)
    (i := hl.item depth text) hfront' h first rest

/-! ## Whole arrays -/

omit hl in
/-- What comes of the items of an array comes of the array. -/
theorem Takes.yields {f : Char → Reader β} {r : Reader β}
    (h : Takes layout depth r true texts outcome) (hf : f '[' = discard take >>= fun _ => r) :
    Yields (peek >>= f) outcome (layout.enclose depth '[' ']' texts) := by
  have hrun (rest : List Char) : f '[' ('[' :: (layout.pending depth ']' true texts ++ rest)) =
      outcome.map fun b => (b, rest) := by
    rw [hf]
    exact (bind_of_ok (discard_take_cons _ _)).trans (h rest)
  rw [Layout.enclose_eq]
  cases outcome with
  | ok b => exact reads_peek rfl (by decide) fun rest _ => hrun rest
  | error e => exact rejects_peek rfl (by decide) fun rest _ => hrun rest

/-! ## Objects that are set out -/

/-- What the members amount to decides what comes of an object. -/
theorem yields_braces {f : Char → Reader β} {g : σ → Reader β}
    {member : String → σ → Except Fault (Reader σ)} {s s' : σ}
    {members : List (String × List Char)} (hf : f '{' = object member s >>= g)
    (h : Collects member s members s') (hg : ∀ rest, g s' rest = outcome.map fun b => (b, rest)) :
    Yields (peek >>= f) outcome (layout.enclose depth '{' '}' (memberTexts layout members)) := by
  cases outcome with
  | ok b => exact reads_braces hl depth hf h hg
  | error e =>
    have hobject := objectWith_braces (hl.blank_closing depth true members) (h.amounts hl depth)
    rw [← Layout.enclose_eq_braces hl, Layout.enclose_eq] at hobject
    show Rejects _ _ _
    rw [Layout.enclose_eq]
    refine rejects_peek rfl (by decide) fun rest _ => ?_
    rw [hf]
    exact (bind_of_ok (hobject rest)).trans (hg rest)

/-- An object is rejected with the first of its values that is. -/
theorem rejects_braces {f : Char → Reader β} {g : σ → Reader β}
    {member : String → σ → Except Fault (Reader σ)} {s s' : σ}
    {front : List (String × List Char)} {key : String} {r : Reader σ}
    (hf : f '{' = object member s >>= g) (hfront : Collects member s front s')
    (hr : member key s' = .ok r) (h : Rejects r e text) (back : List (String × List Char)) :
    Rejects (peek >>= f) e
      (layout.enclose depth '{' '}' (memberTexts layout (front ++ (key, text) :: back))) := by
  have hobject := objectWith_braces_of_rejects (m := hl.member depth (key, text))
    (hl.blank_closing depth true (front ++ (key, text) :: back)) (hfront.amounts hl depth)
    (quoted_quote key) hr h (back.map (hl.member depth))
  rw [← List.map_cons, ← List.map_append, ← Layout.enclose_eq_braces hl, Layout.enclose_eq]
    at hobject
  rw [Layout.enclose_eq]
  refine rejects_peek rfl (by decide) fun rest _ => ?_
  rw [hf]
  exact bind_of_error (hobject rest)

end

/-! ## Large integers -/

/-- Where values are kept, the text of an integer is left to the reader of numbers. -/
theorem value_text {left : List Char} (hleft : Blank left) (n : Int) (depth : Nat)
    (rest : List Char) : value depth (left ++ ((Number.integer n).text ++ rest)) =
      (Json.number <$> number) ((Number.integer n).text ++ rest) := by
  obtain ⟨c, cs, htext, hc⟩ := exists_text_integer_eq_cons n
  rw [htext]
  exact value_of_beginsNumber hleft hc depth _

theorem begins_text (n : Int) : Begins (Number.integer n).text := by
  obtain ⟨c, cs, htext, hc⟩ := exists_text_integer_eq_cons n
  exact ⟨c, cs, htext, isBlank_of_beginsNumber hc, ne_of_beginsNumber hc rfl⟩

/-- Where an integer is wanted, one that does not fit in 64 bits is rejected in either case. -/
theorem rejects_integer {n : Int} (h : ¬ IsWord n) :
    Rejects Reader.integer (if IsOversized n then .malformed else .mismatch)
      (Number.integer n).text := by
  obtain ⟨c, text, htext, hc⟩ := exists_text_integer_eq_cons n
  rw [htext]
  refine rejects_peek (isBlank_of_beginsNumber hc) (ne_of_beginsNumber hc rfl) fun rest hr => ?_
  have hnumber := number_text_of_not_isWord h hr
  rw [htext, decimal] at hnumber
  rw [if_pos hc]
  by_cases hlarge : IsOversized n
  · rw [if_pos (isOversized_iff.1 hlarge)] at hnumber
    rw [if_pos hlarge]
    exact bind_of_error hnumber
  · rw [if_neg (isOversized_iff.not.1 hlarge)] at hnumber
    rw [if_neg hlarge]
    exact bind_of_ok hnumber

/-- An integer that is not oversized is kept as some number, the same at every depth. -/
theorem exists_reads_value_integer {n : Int} (h : ¬ IsOversized n) :
    ∃ x, ∀ depth, Reads (value depth) (.number x) (Number.integer n).text := by
  by_cases hn : IsWord n
  · exact ⟨.integer n, fun depth => reads_value_scalar .compact 0 (v := .integer n) hn depth⟩
  · refine ⟨.decimal (decide (n < 0)) (extend 0 (Nat.toDigits 10 n.natAbs)).1
      (extend 0 (Nat.toDigits 10 n.natAbs)).2, fun depth => ⟨begins_text n, ?_⟩⟩
    intro left rest hleft hrest
    have hnumber := number_text_of_not_isWord hn hrest
    rw [decimal, if_neg (isOversized_iff.not.1 h)] at hnumber
    rw [value_text hleft]
    exact map_of_ok Json.number hnumber

/-- **An oversized integer is malformed.** -/
theorem rejects_value_integer {n : Int} (h : IsOversized n) (depth : Nat) :
    Rejects (value depth) .malformed (Number.integer n).text where
  begins := begins_text n
  run := by
    intro left rest hleft hrest
    have hnumber := number_text_of_not_isWord h.not_isWord hrest
    rw [decimal, if_pos (isOversized_iff.1 h)] at hnumber
    rw [value_text hleft]
    exact map_of_error Json.number hnumber

end PointerMotion.Json.Reader
