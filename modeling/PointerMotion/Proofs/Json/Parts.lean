import Mathlib.Data.List.Forall2
import PointerMotion.Json.Reader.Value
import PointerMotion.Proofs.Json.Grammar

/-!
# Containers are read part by part

A container is read however it is spread out: the blanks around its parts make no difference, and
each part is read as if it stood alone.  There are two sides to this.

* What is read of the parts is read of the container: a reader of items that `Reads` each item of
  an array reads the array.  For an object it depends on the members before a member what is done
  with it, so what members amount to is a relation `Amounts` that follows them in their order.
* The other way round, a container that was read *once* tells what was read of its parts.  For this
  the readers of the parts have to be `Steady`: what they take once, with some text behind it, they
  take with every text behind it.  A reader that steals from the text behind a value, or looks into
  it, is not steady.

Together the two sides say that a container is read if and only if its parts are
(`array_brackets_eq_ok_iff`, `objectWith_braces_eq_ok_iff`), whatever stands around them.
-/

namespace PointerMotion.Json.Reader

variable {α β κ σ : Type} {left inner rest : List Char}

/-! ## Steady readers -/

/-- **What the reader takes once of a text, it takes always**: all of the text, as the same
value. -/
structure Steady (r : Reader α) (text : List Char) : Prop where
  reads : ∀ {left rest rest' : List Char} {a : α}, Blank left → Delimited rest →
    r (left ++ (text ++ rest)) = .ok (a, rest') → Reads r a text

theorem Reads.steady {r : Reader α} {a : α} {text : List Char} (h : Reads r a text) :
    Steady r text where
  reads hleft hrest hrun := by
    rw [h.run hleft hrest] at hrun
    cases hrun
    exact h

/-- The value taken may be changed. -/
theorem Steady.map {r : Reader α} {text : List Char} (h : Steady r text) (f : α → β) :
    Steady (f <$> r) text where
  reads hleft hrest hrun := by
    obtain ⟨a, ha, rfl⟩ := map_eq_ok_iff.1 hrun
    exact (h.reads hleft hrest ha).map f

theorem Steady.reads_map_iff {r : Reader α} {text : List Char} (h : Steady r text) {f : α → β}
    {b : β} : Reads (f <$> r) b text ↔ ∃ a, Reads r a text ∧ f a = b := by
  constructor
  · intro hread
    obtain ⟨a, ha, hb⟩ := map_eq_ok_iff.1 (hread.run blank_nil delimited_nil)
    exact ⟨a, h.reads blank_nil delimited_nil ha, hb⟩
  · rintro ⟨a, ha, rfl⟩
    exact ha.map f

theorem required_eq_ok_iff {found : Option α} {a : α} {text rest' : List Char} :
    required found text = .ok (a, rest') ↔ found = some a ∧ rest' = text := by
  cases found with
  | none =>
    constructor
    · rintro ⟨⟩
    · rintro ⟨⟨⟩, -⟩
  | some b =>
    constructor
    · rintro ⟨⟩
      exact ⟨rfl, rfl⟩
    · rintro ⟨⟨⟩, rfl⟩
      rfl

/-- Only some values may be wanted. -/
theorem Steady.wanted {r : Reader α} {text : List Char} (h : Steady r text) (want : α → Option β) :
    Steady (wanted r want) text where
  reads hleft hrest hrun := by
    obtain ⟨a, mid, ha, hb⟩ := bind_eq_ok_iff.1 hrun
    obtain ⟨hwant, -⟩ := required_eq_ok_iff.1 hb
    refine (h.reads hleft hrest ha).bind fun rest => ?_
    rw [hwant]
    rfl

/-- What was found, or else a mismatch. -/
def outcome (found : Option α) : Except Fault α := found.elim (.error .mismatch) .ok

theorem outcome_eq_ok_iff {found : Option α} {a : α} : outcome found = .ok a ↔ found = some a := by
  cases found <;> simp [outcome]

theorem required_eq_outcome (found : Option α) (text : List Char) :
    required found text = (outcome found).map fun a => (a, text) := by
  cases found <;> rfl

/-- The reader takes nothing: what it gives once, it gives always. -/
def Idle (r : Reader α) : Prop :=
  ∀ (text rest : List Char) (a : α), r text = .ok (a, rest) → ∀ text', r text' = .ok (a, text')

theorem idle_pure (a : α) : Idle (pure a : Reader α) := by
  rintro text rest b ⟨⟩ text'
  rfl

theorem idle_required (found : Option α) : Idle (required found) := by
  intro text rest a h text'
  exact required_eq_ok_iff.2 ⟨(required_eq_ok_iff.1 h).1, rfl⟩

/-- A reader that first looks at the next character may be studied without blanks. -/
theorem steady_peek {f : Char → Reader α} {c : Char} {text : List Char} (hc : isBlank c = false)
    (hc' : c ≠ ']') (h : ∀ {rest rest' : List Char} {a : α}, Delimited rest →
      f c (c :: (text ++ rest)) = .ok (a, rest') →
        ∀ rest, Delimited rest → f c (c :: (text ++ rest)) = .ok (a, rest)) :
    Steady (peek >>= f) (c :: text) where
  reads hleft hrest hrun := by
    rw [List.cons_append, bind_of_ok (peek_blank hleft hc _)] at hrun
    exact reads_peek hc hc' (h hrest hrun)

/-! ## Between the parts -/

/-- Blanks are skipped before the next character is looked at. -/
theorem peek_append (hleft : Blank left) (text : List Char) : peek (left ++ text) = peek text := by
  rw [peek, peek, List.dropWhile_append_of_pos hleft]

/-- Blanks make no difference to a reader that first looks at the next character. -/
theorem peek_bind_append (hleft : Blank left) (f : Char → Reader α) (text : List Char) :
    (peek >>= f) (left ++ text) = (peek >>= f) text := by
  show (peek (left ++ text) >>= fun p => f p.1 p.2) = (peek text >>= fun p => f p.1 p.2)
  rw [peek_append hleft]

theorem delimited_remainder (hleft : Blank left) (hinner : Blank inner) (last : Char)
    (hlast : isDelimiter last = true) (texts : List (List Char)) (rest : List Char) :
    Delimited (left ++ (remainder inner last false texts ++ rest)) := by
  refine delimited_blank_append hleft ?_
  cases texts with
  | nil =>
    rw [remainder, List.append_assoc]
    exact delimited_blank_append hinner (delimited_cons hlast rest)
  | cons text texts => exact delimited_cons rfl _

/-- The bracket at the end is taken. -/
theorem punctuation_remainder_nil (hleft : Blank left) (hinner : Blank inner) {last : Char}
    (hlast : isBlank last = false) (first : Bool) (rest : List Char) :
    punctuation last (left ++ (remainder inner last first [] ++ rest)) = .ok ((), rest) := by
  rw [remainder, List.append_assoc, punctuation, peek_bind_append hleft]
  exact punctuation_blank hinner hlast rest

/-! ## Items -/

/-- An item is seen behind a separator and blanks. -/
theorem hasItem_of_begins {text : List Char} (hleft : Blank left) (ht : Begins text)
    (first : Bool) : hasItem first ((if first then [] else [',']) ++ (left ++ text)) =
      .ok (true, text) := by
  obtain ⟨c, cs, rfl, hc, hne⟩ := ht
  have hpeek := peek_blank hleft hc cs
  cases first with
  | true =>
    change hasItem true (left ++ c :: cs) = .ok (true, c :: cs)
    rw [hasItem, bind_of_ok hpeek]
    split
    · exact absurd rfl hne
    · rfl
  | false =>
    change hasItem false (',' :: (left ++ c :: cs)) = .ok (true, c :: cs)
    rw [hasItem, bind_of_ok (peek_cons rfl _)]
    show (discard take >>= fun _ => _) _ = _
    rw [bind_of_ok (discard_take_cons _ _), bind_of_ok hpeek, if_neg hne]
    rfl

theorem hasItem_remainder_cons (hleft : Blank left) {i : Item} (hi : Begins i.text) (first : Bool)
    (texts : List (List Char)) (rest : List Char) :
    hasItem first (left ++ (remainder inner ']' first (i.whole :: texts) ++ rest)) =
      .ok (true, i.text ++ (i.after ++ (remainder inner ']' false texts ++ rest))) := by
  simp only [remainder, Item.whole, List.append_assoc]
  refine (peek_bind_append hleft _ _).trans ?_
  exact hasItem_of_begins i.blank_before (hi.append _) first

theorem hasItem_remainder_nil (hleft : Blank left) (hinner : Blank inner) (first : Bool)
    (rest : List Char) :
    hasItem first (left ++ (remainder inner ']' first [] ++ rest)) = .ok (false, ']' :: rest) := by
  rw [hasItem, peek_bind_append hleft, remainder, List.append_assoc]
  exact bind_of_ok (peek_blank hinner rfl rest)

/-- An item is taken, and the rest of the array is left. -/
theorem item_remainder_cons (hleft : Blank left) (hinner : Blank inner) {r : Reader α} {a : α}
    {i : Item} (h : Reads r a i.text) (first : Bool) (texts : List (List Char))
    (rest : List Char) :
    item first r (left ++ (remainder inner ']' first (i.whole :: texts) ++ rest)) =
      .ok (a, i.after ++ (remainder inner ']' false texts ++ rest)) := by
  rw [item, bind_of_ok (hasItem_remainder_cons hleft h.begins first texts rest)]
  exact h.run_front (delimited_remainder i.blank_after hinner ']' rfl texts rest)

/-- An item that was taken is one that is always taken. -/
theorem reads_of_item (hleft : Blank left) (hinner : Blank inner) {r : Reader α} {i : Item}
    (hi : Begins i.text) (hr : Steady r i.text) {first : Bool} {texts : List (List Char)}
    {rest rest' : List Char} {a : α}
    (h : item first r (left ++ (remainder inner ']' first (i.whole :: texts) ++ rest)) =
      .ok (a, rest')) : Reads r a i.text := by
  rw [item, bind_of_ok (hasItem_remainder_cons hleft hi first texts rest)] at h
  exact hr.reads blank_nil (delimited_remainder i.blank_after hinner ']' rfl texts rest) h

/-- An item that is missing is a mismatch. -/
theorem item_remainder_nil (hleft : Blank left) (hinner : Blank inner) (r : Reader α)
    (first : Bool) (rest : List Char) :
    item first r (left ++ (remainder inner ']' first [] ++ rest)) = .error .mismatch := by
  rw [item, bind_of_ok (hasItem_remainder_nil hleft hinner first rest)]
  rfl

/-- Where the bracket should be, another item is malformed. -/
theorem punctuation_remainder_cons (hleft : Blank left) (text : List Char)
    (texts : List (List Char)) (rest : List Char) :
    punctuation ']' (left ++ (remainder inner ']' false (text :: texts) ++ rest)) =
      .error .malformed := by
  rw [punctuation, peek_bind_append hleft]
  rfl

/-- One step of taking the items of an array. -/
def itemStep (first : Bool) (r : Reader α) (taken : List α) : Reader (Option (List α)) := do
  if ← hasItem (first && taken.isEmpty) then return some ((← r) :: taken) else return none

theorem itemStep_cons (hleft : Blank left) (hinner : Blank inner) {r : Reader α} {a : α}
    {i : Item} (h : Reads r a i.text) (first : Bool) (taken : List α) (texts : List (List Char))
    (rest : List Char) :
    itemStep first r taken
        (left ++ (remainder inner ']' (first && taken.isEmpty) (i.whole :: texts) ++ rest)) =
      .ok (some (a :: taken), i.after ++ (remainder inner ']' false texts ++ rest)) := by
  rw [itemStep, bind_of_ok (hasItem_remainder_cons hleft h.begins _ texts rest)]
  exact bind_of_ok (h.run_front (delimited_remainder i.blank_after hinner ']' rfl texts rest))

/-- Items are taken one by one, up to the bracket. -/
theorem runs_itemStep (hinner : Blank inner) {r : Reader α} {items : List Item} {as : List α}
    (h : List.Forall₂ (fun i a => Reads r a i.text) items as) (hleft : Blank left) (first : Bool)
    (taken : List α) (rest : List Char) :
    Runs (itemStep first r) taken
      (left ++ (remainder inner ']' (first && taken.isEmpty) (items.map Item.whole) ++ rest))
      (as.reverse ++ taken) (']' :: rest) := by
  induction h generalizing left taken with
  | nil => exact .done (bind_of_ok (hasItem_remainder_nil hleft hinner _ rest))
  | @cons i a items as hi _ ih =>
    have hrest := ih i.blank_after (a :: taken)
    rw [List.isEmpty_cons, Bool.and_false] at hrest
    rw [List.map_cons, List.reverse_cons, List.append_assoc]
    refine .next (itemStep_cons hleft hinner hi first taken _ rest) ?_ hrest
    obtain ⟨c, cs, hcs, -, -⟩ := hi.begins
    simp only [remainder, Item.whole, hcs, List.length_append, List.length_cons]
    omega

/-- Items that were taken one by one are items that are always taken. -/
theorem exists_forall₂_of_iterate (hinner : Blank inner) {r : Reader α} {items : List Item}
    (h : ∀ i ∈ items, Begins i.text ∧ Steady r i.text) {n : Nat} (hleft : Blank left)
    {first flag : Bool} {taken taken' : List α} (hflag : (first && taken.isEmpty) = flag)
    {rest rest' : List Char} (hrun : iterate (itemStep first r) n taken
      (left ++ (remainder inner ']' flag (items.map Item.whole) ++ rest)) = .ok (taken', rest')) :
    ∃ as, List.Forall₂ (fun i a => Reads r a i.text) items as := by
  subst hflag
  induction items generalizing n left taken with
  | nil => exact ⟨[], .nil⟩
  | cons i items ih =>
    obtain ⟨⟨hbegins, hsteady⟩, hitems⟩ := List.forall_mem_cons.1 h
    cases n with
    | zero => cases hrun
    | succ n =>
      rw [iterate] at hrun
      obtain ⟨o, mid, hstep, hrun⟩ := bind_eq_ok_iff.1 hrun
      have htaken := hstep
      rw [List.map_cons, itemStep,
        bind_of_ok (hasItem_remainder_cons hleft hbegins _ _ rest)] at htaken
      obtain ⟨a, _, ha, -⟩ := bind_eq_ok_iff.1 htaken
      have hread := hsteady.reads blank_nil
        (delimited_remainder i.blank_after hinner ']' rfl _ rest) ha
      rw [List.map_cons, itemStep_cons hleft hinner hread] at hstep
      cases hstep
      rw [← Bool.and_false first, ← List.isEmpty_cons] at hrun
      obtain ⟨as, has⟩ := ih hitems i.blank_after hrun
      exact ⟨a :: as, .cons hread has⟩

/-- **The items of an array are read in their order**, together with the bracket after them. -/
theorem items_remainder (hleft : Blank left) (hinner : Blank inner) {r : Reader α}
    {is : List Item} {as : List α} (h : List.Forall₂ (fun i a => Reads r a i.text) is as)
    (first : Bool) (rest : List Char) :
    items first r (left ++ (remainder inner ']' first (is.map Item.whole) ++ rest)) =
      .ok (as, rest) := by
  have hloop := loop_of_runs (runs_itemStep hinner h hleft first [] rest)
  rw [List.isEmpty_nil, Bool.and_true] at hloop
  refine (bind_of_ok hloop).trans ((bind_of_ok (punctuation_cons rfl rest)).trans ?_)
  simp

/-- **The items of an array are read if and only if each of them is.** -/
theorem items_remainder_eq_ok_iff (hinner : Blank inner) {r : Reader α} {is : List Item}
    (h : ∀ i ∈ is, Begins i.text ∧ Steady r i.text) (hleft : Blank left) {first : Bool}
    {as : List α} {rest' : List Char} :
    items first r (left ++ (remainder inner ']' first (is.map Item.whole) ++ rest)) =
        .ok (as, rest') ↔
      List.Forall₂ (fun i a => Reads r a i.text) is as ∧ rest' = rest := by
  constructor
  · intro hrun
    obtain ⟨taken, mid, hloop, -⟩ := bind_eq_ok_iff.1 hrun
    obtain ⟨as', has'⟩ := exists_forall₂_of_iterate hinner h hleft (Bool.and_true first) hloop
    rw [items_remainder hleft hinner has'] at hrun
    cases hrun
    exact ⟨has', rfl⟩
  · rintro ⟨has, rfl⟩
    exact items_remainder hleft hinner has first _

/-- **An array is read if and only if its items are.** -/
theorem array_brackets_eq_ok_iff (hinner : Blank inner) {r : Reader α} {is : List Item}
    (h : ∀ i ∈ is, Begins i.text ∧ Steady r i.text) {as : List α} {rest' : List Char} :
    array r (brackets inner is ++ rest) = .ok (as, rest') ↔
      List.Forall₂ (fun i a => Reads r a i.text) is as ∧ rest' = rest :=
  items_remainder_eq_ok_iff hinner h blank_nil

/-! ## Arrays of a fixed shape -/

/-- **What the reader takes once of what is left of an array, it takes always**: all of it, with
the bracket. -/
def Closes (r : Reader α) (first : Bool) (is : List Item) : Prop :=
  ∀ (left inner rest rest' : List Char) (a : α), Blank left → Blank inner →
    r (left ++ (remainder inner ']' first (is.map Item.whole) ++ rest)) = .ok (a, rest') →
      ∀ rest, r (left ++ (remainder inner ']' first (is.map Item.whole) ++ rest)) = .ok (a, rest)

theorem closes_item {r : Reader α} {f : α → Reader β} {first : Bool} {is : List Item}
    (h : ∀ i ∈ is, Begins i.text ∧ Steady r i.text) (hf : ∀ a, Closes (f a) false is.tail) :
    Closes (item first r >>= f) first is := by
  intro left inner rest rest' b hleft hinner hrun rest₂
  obtain ⟨a, mid, ha, hb⟩ := bind_eq_ok_iff.1 hrun
  cases is with
  | nil => cases (item_remainder_nil hleft hinner r first rest).symm.trans ha
  | cons i is =>
    obtain ⟨⟨hbegins, hsteady⟩, -⟩ := List.forall_mem_cons.1 h
    have hread := reads_of_item hleft hinner hbegins hsteady ha
    cases (item_remainder_cons hleft hinner hread first _ rest).symm.trans ha
    refine (bind_of_ok (item_remainder_cons hleft hinner hread first _ rest₂)).trans ?_
    exact hf a _ _ _ _ _ i.blank_after hinner hb rest₂

theorem closes_punctuation {r : Reader α} {is : List Item} (hr : Idle r) :
    Closes (punctuation ']' >>= fun _ => r) false is := by
  intro left inner rest rest' a hleft hinner hrun rest₂
  obtain ⟨⟨⟩, mid, hbracket, ha⟩ := bind_eq_ok_iff.1 hrun
  cases is with
  | nil =>
    refine (bind_of_ok (punctuation_remainder_nil hleft hinner rfl false rest₂)).trans ?_
    exact hr _ _ _ ha rest₂
  | cons i is => cases (punctuation_remainder_cons hleft _ _ rest).symm.trans hbracket

theorem closes_items {r : Reader α} {f : List α → Reader β} {first : Bool} {is : List Item}
    (h : ∀ i ∈ is, Begins i.text ∧ Steady r i.text) (hf : ∀ as, Idle (f as)) :
    Closes (items first r >>= f) first is := by
  intro left inner rest rest' b hleft hinner hrun rest₂
  obtain ⟨as, mid, has, hb⟩ := bind_eq_ok_iff.1 hrun
  obtain ⟨has, -⟩ := (items_remainder_eq_ok_iff hinner h hleft).1 has
  exact (bind_of_ok ((items_remainder_eq_ok_iff hinner h hleft).2 ⟨has, rfl⟩)).trans
    (hf as _ _ _ hb rest₂)

/-! ## Members -/

/-- A member is seen behind a separator and blanks. -/
theorem hasMember_of_quote (hleft : Blank left) (first : Bool) (text : List Char) :
    hasMember first ((if first then [] else [',']) ++ (left ++ '"' :: text)) =
      .ok (true, '"' :: text) := by
  have hpeek := peek_blank hleft (c := '"') rfl text
  cases first with
  | true =>
    change hasMember true (left ++ '"' :: text) = .ok (true, '"' :: text)
    rw [hasMember, bind_of_ok hpeek]
    rfl
  | false =>
    change hasMember false (',' :: (left ++ '"' :: text)) = .ok (true, '"' :: text)
    rw [hasMember, bind_of_ok (peek_cons rfl _)]
    show (discard take >>= fun _ => _) _ = _
    rw [bind_of_ok (discard_take_cons _ _), bind_of_ok hpeek]
    rfl

theorem hasMember_remainder_cons (hleft : Blank left) (m : Member) (first : Bool)
    (texts : List (List Char)) (rest : List Char) :
    hasMember first (left ++ (remainder inner '}' first (m.whole :: texts) ++ rest)) =
      .ok (true, m.key ++ (m.after ++ ':' :: (m.item.before ++ (m.item.text ++
        (m.item.after ++ (remainder inner '}' false texts ++ rest)))))) := by
  obtain ⟨strokes, -, hcs⟩ := isString_iff.1 m.isString_key
  simp only [remainder, Member.whole, Item.whole, hcs, List.append_assoc, List.cons_append]
  refine (peek_bind_append hleft _ _).trans ?_
  exact hasMember_of_quote m.blank_before first _

theorem hasMember_remainder_nil (hleft : Blank left) (hinner : Blank inner) (first : Bool)
    (rest : List Char) :
    hasMember first (left ++ (remainder inner '}' first [] ++ rest)) =
      .ok (false, '}' :: rest) := by
  rw [hasMember, peek_bind_append hleft, remainder, List.append_assoc]
  exact bind_of_ok (peek_blank hinner rfl rest)

/-- One step of taking the members of an object. -/
def memberStep (key : Reader κ) (member : κ → σ → Except Fault (Reader σ)) :
    Bool × σ → Reader (Option (Bool × σ)) := fun (first, s) => do
  if ← hasMember first then
    let value ← member (← key) s
    punctuation ':'
    return some (false, ← value)
  else
    return none

/-- **What members amount to**, from one state of a reader to the next: each key is read, and
answered with a reader for the value, in the state that the members before it have left. -/
inductive Amounts (key : Reader κ) (member : κ → σ → Except Fault (Reader σ)) :
    σ → List Member → σ → Prop where
  | nil (s : σ) : Amounts key member s [] s
  | cons {s s' s'' : σ} {m : Member} {k : κ} {r : Reader σ} {members : List Member}
      (hkey : ∀ rest, key (m.key ++ rest) = .ok (k, rest)) (hr : member k s = .ok r)
      (h : Reads r s' m.item.text) (hrest : Amounts key member s' members s'') :
      Amounts key member s (m :: members) s''

section

variable {key : Reader κ} {member : κ → σ → Except Fault (Reader σ)}

/-- What is done with a member after its key. -/
theorem memberStep_eq (hleft : Blank left) {m : Member} {k : κ} {s : σ}
    (hkey : ∀ rest, key (m.key ++ rest) = .ok (k, rest)) (first : Bool)
    (texts : List (List Char)) (rest : List Char) :
    memberStep key member (first, s)
        (left ++ (remainder inner '}' first (m.whole :: texts) ++ rest)) =
      (member k s).bind fun r => (r >>= fun s' => pure (some (false, s')))
        (m.item.before ++ (m.item.text ++
          (m.item.after ++ (remainder inner '}' false texts ++ rest)))) := by
  refine (bind_of_ok (hasMember_remainder_cons hleft m first texts rest)).trans ?_
  refine (bind_of_ok (hkey _)).trans ?_
  cases hm : member k s with
  | error e =>
    exact bind_of_error (m := liftM (Except.error e : Except Fault (Reader σ))) rfl
  | ok r =>
    refine (bind_of_ok (m := liftM (Except.ok r : Except Fault (Reader σ))) rfl).trans ?_
    exact bind_of_ok (punctuation_blank m.blank_after rfl _)

theorem memberStep_cons (hleft : Blank left) (hinner : Blank inner) {m : Member} {k : κ} {s s' : σ}
    {r : Reader σ} (hkey : ∀ rest, key (m.key ++ rest) = .ok (k, rest)) (hr : member k s = .ok r)
    (h : Reads r s' m.item.text) (first : Bool) (texts : List (List Char)) (rest : List Char) :
    memberStep key member (first, s)
        (left ++ (remainder inner '}' first (m.whole :: texts) ++ rest)) =
      .ok (some (false, s'), m.item.after ++ (remainder inner '}' false texts ++ rest)) := by
  rw [memberStep_eq hleft hkey, hr]
  exact bind_of_ok (h.run m.item.blank_before
    (delimited_remainder m.item.blank_after hinner '}' rfl texts rest))

/-- A member that is taken is some text. -/
theorem length_remainder_member (m : Member) (first : Bool) (texts : List (List Char))
    (left rest : List Char) :
    (m.item.after ++ (remainder inner '}' false texts ++ rest)).length <
      (left ++ (remainder inner '}' first (m.whole :: texts) ++ rest)).length := by
  rw [remainder, Member.whole, Item.whole]
  simp only [List.length_append, List.length_cons]
  omega

/-- Members are taken one by one, up to the brace. -/
theorem runs_memberStep (hinner : Blank inner) {s s' : σ} {members : List Member}
    (h : Amounts key member s members s') (hleft : Blank left) (first : Bool)
    (rest : List Char) : ∃ flag,
    Runs (memberStep key member) (first, s)
      (left ++ (remainder inner '}' first (members.map Member.whole) ++ rest))
      (flag, s') ('}' :: rest) := by
  induction h generalizing left first with
  | nil s => exact ⟨first, .done (bind_of_ok (hasMember_remainder_nil hleft hinner first rest))⟩
  | @cons s s' s'' m k r members hkey hr h _ ih =>
    obtain ⟨flag, hruns⟩ := ih m.item.blank_after false
    exact ⟨flag, .next (memberStep_cons hleft hinner hkey hr h first _ rest)
      (length_remainder_member m first _ left rest) hruns⟩

/-- Members that were taken one by one amount to what they always amount to. -/
theorem exists_amounts_of_iterate (hinner : Blank inner) {members : List Member}
    (hkeys : ∀ m ∈ members, ∀ {rest rest' k}, key (m.key ++ rest) = .ok (k, rest') →
      ∀ rest, key (m.key ++ rest) = .ok (k, rest))
    (hvalues : ∀ m ∈ members, ∀ k s r, member k s = .ok r → Steady r m.item.text) {n : Nat}
    (hleft : Blank left) {first : Bool} {s : σ} {p : Bool × σ} {rest rest' : List Char}
    (hrun : iterate (memberStep key member) n (first, s)
      (left ++ (remainder inner '}' first (members.map Member.whole) ++ rest)) =
        .ok (p, rest')) :
    ∃ s', Amounts key member s members s' := by
  induction members generalizing n left first s with
  | nil => exact ⟨s, .nil s⟩
  | cons m members ih =>
    obtain ⟨hkey, hkeys⟩ := List.forall_mem_cons.1 hkeys
    obtain ⟨hvalue, hvalues⟩ := List.forall_mem_cons.1 hvalues
    cases n with
    | zero => cases hrun
    | succ n =>
      rw [iterate] at hrun
      obtain ⟨o, mid, hstep, hrun⟩ := bind_eq_ok_iff.1 hrun
      have htaken := hstep
      rw [List.map_cons, memberStep,
        bind_of_ok (hasMember_remainder_cons hleft m first _ rest)] at htaken
      obtain ⟨k, _, hk, -⟩ := bind_eq_ok_iff.1 htaken
      have hk := hkey hk
      have hvalue := hvalue k s
      rw [List.map_cons, memberStep_eq hleft hk] at hstep
      cases hr : member k s with
      | error e =>
        rw [hr] at hstep
        cases hstep
      | ok r =>
        rw [hr] at hstep
        obtain ⟨s', _, hs', -⟩ := bind_eq_ok_iff.1 hstep
        have hread := (hvalue r hr).reads m.item.blank_before
          (delimited_remainder m.item.blank_after hinner '}' rfl _ rest) hs'
        have hnext := bind_of_ok (f := fun s' => pure (some (false, s')))
          (hread.run m.item.blank_before
            (delimited_remainder m.item.blank_after hinner '}' rfl (members.map Member.whole) rest))
        change (r >>= fun s' => pure (some (false, s'))) _ = _ at hstep
        rw [hnext] at hstep
        cases hstep
        obtain ⟨s'', hrest⟩ := ih hkeys hvalues m.item.blank_after hrun
        exact ⟨s'', .cons hk hr hread hrest⟩

/-- **The members of an object are read in their order**, together with the brace after them. -/
theorem objectWith_braces (hinner : Blank inner) {s s' : σ} {members : List Member}
    (h : Amounts key member s members s') (rest : List Char) :
    objectWith key member s (braces inner members ++ rest) = .ok (s', rest) := by
  obtain ⟨flag, hruns⟩ := runs_memberStep hinner h blank_nil true rest
  refine (bind_of_ok (discard_take_cons '{' _)).trans ?_
  refine (bind_of_ok (loop_of_runs hruns)).trans ?_
  exact bind_of_ok (punctuation_cons rfl rest)

/-- **An object is read if and only if its members amount to something.** -/
theorem objectWith_braces_eq_ok_iff (hinner : Blank inner) {members : List Member}
    (hkeys : ∀ m ∈ members, ∀ {rest rest' k}, key (m.key ++ rest) = .ok (k, rest') →
      ∀ rest, key (m.key ++ rest) = .ok (k, rest))
    (hvalues : ∀ m ∈ members, ∀ k s r, member k s = .ok r → Steady r m.item.text) {s s' : σ}
    {rest' : List Char} :
    objectWith key member s (braces inner members ++ rest) = .ok (s', rest') ↔
      Amounts key member s members s' ∧ rest' = rest := by
  constructor
  · intro hrun
    obtain ⟨⟨⟩, mid, htake, hbody⟩ := bind_eq_ok_iff.1 hrun
    cases htake
    obtain ⟨p, _, hloop, -⟩ := bind_eq_ok_iff.1 hbody
    obtain ⟨s'', hs''⟩ := exists_amounts_of_iterate hinner hkeys hvalues blank_nil hloop
    rw [objectWith_braces hinner hs'' rest] at hrun
    cases hrun
    exact ⟨hs'', rfl⟩
  · rintro ⟨h, rfl⟩
    exact objectWith_braces hinner h _

/-- Members are taken one by one, up to one that fails in the state before it. -/
theorem stalls_memberStep (hinner : Blank inner) {front back : List Member} {m : Member} {s s' : σ}
    {e : Fault} (hfront : Amounts key member s front s')
    (hm : ∀ {left}, Blank left → ∀ (first : Bool) (texts : List (List Char)) (rest : List Char),
      memberStep key member (first, s')
        (left ++ (remainder inner '}' first (m.whole :: texts) ++ rest)) = .error e)
    (hleft : Blank left) (first : Bool) (rest : List Char) :
    Stalls (memberStep key member) e (first, s)
      (left ++ (remainder inner '}' first ((front ++ m :: back).map Member.whole) ++ rest)) := by
  induction hfront generalizing left first with
  | nil s => exact .now (hm hleft first _ rest)
  | @cons s s' s'' m' k' r members hkey' hr h _ ih =>
    exact .next (memberStep_cons hleft hinner hkey' hr h first _ rest)
      (length_remainder_member m' first _ left rest) (ih hm m'.item.blank_after false)

/-- An object fails with the first of its members that does. -/
theorem objectWith_braces_of_stalls {front back : List Member} {m : Member} {s : σ} {e : Fault}
    (rest : List Char) (h : Stalls (memberStep key member) e (true, s)
      (remainder inner '}' true ((front ++ m :: back).map Member.whole) ++ rest)) :
    objectWith key member s (braces inner (front ++ m :: back) ++ rest) = .error e :=
  (bind_of_ok (discard_take_cons '{' _)).trans (bind_of_error (loop_of_stalls h))

/-- **A member that is refused is the end of reading**, whatever follows it. -/
theorem objectWith_braces_of_refused (hinner : Blank inner) {front back : List Member} {m : Member}
    {s s' : σ} {k : κ} {e : Fault} (hfront : Amounts key member s front s')
    (hkey : ∀ rest, key (m.key ++ rest) = .ok (k, rest)) (he : member k s' = .error e)
    (rest : List Char) :
    objectWith key member s (braces inner (front ++ m :: back) ++ rest) = .error e := by
  refine objectWith_braces_of_stalls rest (stalls_memberStep hinner hfront ?_ blank_nil true rest)
  intro left hleft first texts rest
  rw [memberStep_eq hleft hkey, he]
  rfl

/-- **A value that is rejected is the end of reading**, whatever follows it. -/
theorem objectWith_braces_of_rejects (hinner : Blank inner) {front : List Member} {m : Member}
    {s s' : σ} {k : κ} {r : Reader σ} {e : Fault} (hfront : Amounts key member s front s')
    (hkey : ∀ rest, key (m.key ++ rest) = .ok (k, rest)) (hr : member k s' = .ok r)
    (h : Rejects r e m.item.text) (back : List Member) (rest : List Char) :
    objectWith key member s (braces inner (front ++ m :: back) ++ rest) = .error e := by
  refine objectWith_braces_of_stalls rest (stalls_memberStep hinner hfront ?_ blank_nil true rest)
  intro left hleft first texts rest
  rw [memberStep_eq hleft hkey, hr]
  exact bind_of_error (h.run m.item.blank_before
    (delimited_remainder m.item.blank_after hinner '}' rfl _ rest))

end

end PointerMotion.Json.Reader
