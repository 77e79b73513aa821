import PointerMotion.Proofs.Json.Result
import PointerMotion.Proofs.Json.Token
import PointerMotion.Proofs.Json.Value

/-!
# Values of the grammar

Two readers take values of every kind, and this is what they make of the grammar.

* `skip` takes every value of the grammar, to its end and no further, however deep it is
  (`reads_skip`).
* `value` need not take it: a number may be out of range, half of a pair may be missing, and there
  is a limit to the depth.  But it is steady on every value of the grammar (`steady_value`), as are
  the readers of scalars of one kind, and that is all that is needed of the texts of members whose
  order is changed.
-/

namespace PointerMotion.Json

open Reader

/-! ## What a value begins with -/

/-- What a value is can be seen from the character it begins with. -/
structure Opens (c : Char) (text : List Char) : Prop where
  isBlank_eq : isBlank c = false
  ne_bracket : c ≠ ']'
  isNumber : beginsNumber c = true → IsNumber text
  isString : c = '"' → IsString text
  isArray : c = '[' → ∃ inner items, Blank inner ∧ (∀ i ∈ items, IsValue i.text) ∧
    text = brackets inner items
  isObject : c = '{' → ∃ inner members, Blank inner ∧ (∀ m ∈ members, IsValue m.item.text) ∧
    text = braces inner members

/-- A number begins with a sign or a digit. -/
theorem IsNumber.exists_eq_cons {text : List Char} (h : IsNumber text) :
    ∃ c rest, text = c :: rest ∧ beginsNumber c = true := by
  obtain ⟨sign, whole, fraction, exponent, hsign, hwhole, -, -, rfl⟩ := isNumber_iff.1 h
  rcases hsign with rfl | rfl
  · rcases hwhole with rfl | ⟨⟨hne, hdigits⟩, -⟩
    · exact ⟨'0', _, rfl, rfl⟩
    · cases whole with
      | nil => exact absurd rfl hne
      | cons d ds =>
        refine ⟨d, _, rfl, ?_⟩
        rw [beginsNumber, hdigits d List.mem_cons_self, Bool.or_true]
  · exact ⟨'-', _, rfl, rfl⟩

/-- A literal opens nothing else. -/
theorem opens_literal {c : Char} (text : List Char) (hc : c ∈ ['n', 't', 'f']) : Opens c text := by
  simp only [List.mem_cons, List.not_mem_nil, or_false] at hc
  rcases hc with rfl | rfl | rfl <;>
    exact ⟨rfl, by decide, fun h => absurd h (by decide), fun h => absurd h (by decide),
      fun h => absurd h (by decide), fun h => absurd h (by decide)⟩

theorem IsValue.exists_opens {text : List Char} (h : IsValue text) :
    ∃ c rest, text = c :: rest ∧ Opens c text := by
  cases h with
  | null => exact ⟨'n', _, rfl, opens_literal _ (by decide)⟩
  | true => exact ⟨'t', _, rfl, opens_literal _ (by decide)⟩
  | false => exact ⟨'f', _, rfl, opens_literal _ (by decide)⟩
  | number h =>
    obtain ⟨c, rest, htext, hc⟩ := h.exists_eq_cons
    refine ⟨c, rest, htext, isBlank_of_beginsNumber hc, ne_of_beginsNumber hc rfl, fun _ => h, ?_,
      ?_, ?_⟩ <;> exact fun he => absurd he (ne_of_beginsNumber hc rfl)
  | string h =>
    obtain ⟨strokes, hs, rfl⟩ := isString_iff.1 h
    exact ⟨'"', _, rfl, rfl, by decide, fun h => absurd h (by decide), fun _ => h,
      fun h => absurd h (by decide), fun h => absurd h (by decide)⟩
  | array hinner h =>
    exact ⟨'[', _, rfl, rfl, by decide, fun h => absurd h (by decide),
      fun h => absurd h (by decide), fun _ => ⟨_, _, hinner, h, rfl⟩, fun h => absurd h (by decide)⟩
  | object hinner h =>
    exact ⟨'{', _, rfl, rfl, by decide, fun h => absurd h (by decide),
      fun h => absurd h (by decide), fun h => absurd h (by decide), fun _ => ⟨_, _, hinner, h, rfl⟩⟩

theorem IsValue.begins {text : List Char} (h : IsValue text) : Begins text := by
  obtain ⟨c, rest, htext, hc⟩ := h.exists_opens
  exact ⟨c, rest, htext, hc.isBlank_eq, hc.ne_bracket⟩

namespace Reader

variable {α β σ : Type}

/-! ## Skipping -/

/-- A part of a container is shorter than what is left of the container. -/
theorem length_lt_remainder {text : List Char} {texts : List (List Char)} (h : text ∈ texts)
    (inner : List Char) (last : Char) (first : Bool) :
    text.length < (remainder inner last first texts).length := by
  induction texts generalizing first with
  | nil => cases h
  | cons t texts ih =>
    rw [remainder]
    simp only [List.length_append]
    rcases List.mem_cons.1 h with rfl | h
    · have : 0 < (remainder inner last false texts).length := by
        cases texts <;> simp [remainder]
      omega
    · have := ih h false
      omega

theorem length_lt_brackets {i : Item} {items : List Item} (h : i ∈ items) (inner : List Char) :
    i.text.length + 1 < (brackets inner items).length := by
  have hlt := length_lt_remainder (List.mem_map_of_mem (f := Item.whole) h) inner ']' true
  rw [Item.whole] at hlt
  simp only [brackets, List.length_append, List.length_cons] at hlt ⊢
  omega

theorem length_lt_braces {m : Member} {members : List Member} (h : m ∈ members)
    (inner : List Char) : m.item.text.length + 1 < (braces inner members).length := by
  have hlt := length_lt_remainder (List.mem_map_of_mem (f := Member.whole) h) inner '}' true
  rw [Member.whole, Item.whole] at hlt
  simp only [braces, List.length_append, List.length_cons] at hlt ⊢
  omega

/-- A number is skipped. -/
theorem reads_skipWithin_number {text : List Char} (h : IsNumber text) (n : Nat) :
    Reads (skipWithin (n + 1)) () text := by
  obtain ⟨p, hp⟩ := exists_parts_eq h
  obtain ⟨c, cs, rfl, hc⟩ := h.exists_eq_cons
  refine reads_peek (isBlank_of_beginsNumber hc) (ne_of_beginsNumber hc rfl) fun rest hrest => ?_
  have hstrict : strict parts (c :: cs ++ rest) = .ok (p, rest) := by
    rw [strict, hp hrest]
  split
  · exact absurd rfl (ne_of_beginsNumber hc rfl)
  · exact absurd rfl (ne_of_beginsNumber hc rfl)
  · refine map_of_ok (fun _ => ()) (a := Json.null) ?_
    rw [scalarWith_of_beginsNumber hc]
    exact bind_of_ok hstrict

/-- Members are skipped, whatever their keys are. -/
theorem amounts_skip {n : Nat} {members : List Member}
    (h : ∀ m ∈ members, Reads (skipWithin n) () m.item.text) :
    Amounts skipQuoted (fun _ _ => .ok (skipWithin n)) () members () := by
  induction members with
  | nil => exact .nil ()
  | cons m members ih =>
    obtain ⟨hm, hmembers⟩ := List.forall_mem_cons.1 h
    exact .cons (skipQuoted_of_isString m.isString_key) rfl hm (ih hmembers)

/-- A value is skipped, if it is no longer than the depth that it may have. -/
theorem reads_skipWithin {text : List Char} (h : IsValue text) {n : Nat} (hn : text.length ≤ n) :
    Reads (skipWithin n) () text := by
  obtain ⟨n, rfl⟩ : ∃ m, n = m + 1 := by
    obtain ⟨c, cs, rfl, -⟩ := h.begins
    exact Nat.exists_eq_succ_of_ne_zero (Nat.ne_of_gt (Nat.lt_of_succ_le
      (Nat.le_trans (Nat.succ_le_succ (Nat.zero_le _)) hn)))
  induction h generalizing n with
  | null => exact reads_peek rfl (by decide) fun rest _ => rfl
  | true => exact reads_peek rfl (by decide) fun rest _ => rfl
  | false => exact reads_peek rfl (by decide) fun rest _ => rfl
  | number h => exact reads_skipWithin_number h n
  | string h =>
    have hskip := skipQuoted_of_isString h
    obtain ⟨strokes, hs, rfl⟩ := isString_iff.1 h
    refine reads_peek rfl (by decide) fun rest _ => ?_
    refine map_of_ok (fun _ => ()) (a := Json.null) ?_
    exact (bind_of_ok (peek_cons (c := '"') rfl _)).trans (bind_of_ok (hskip rest))
  | @array inner items hinner h ih =>
    have hitems : ∀ i ∈ items, Reads (skipWithin n) () i.text := by
      intro i hi
      have hlt := length_lt_brackets hi inner
      obtain ⟨n, rfl⟩ : ∃ m, n = m + 1 := ⟨n - 1, by omega⟩
      exact ih i hi n (by omega)
    refine reads_peek rfl (by decide) fun rest _ =>
      map_of_ok (fun _ => ()) (a := items.map fun _ => ()) ?_
    refine (array_brackets_eq_ok_iff hinner fun i hi => ?_).2 ⟨?_, rfl⟩
    · exact ⟨(hitems i hi).begins, (hitems i hi).steady⟩
    · exact List.forall₂_map_right_iff.2 (List.forall₂_same.2 hitems)
  | @object inner members hinner h ih =>
    have hmembers : ∀ m ∈ members, Reads (skipWithin n) () m.item.text := by
      intro m hm
      have hlt := length_lt_braces hm inner
      obtain ⟨n, rfl⟩ : ∃ m, n = m + 1 := ⟨n - 1, by omega⟩
      exact ih m hm n (by omega)
    exact reads_peek rfl (by decide) fun rest _ =>
      objectWith_braces hinner (amounts_skip hmembers) _

/-- **Every value of the grammar is skipped**, and nothing of what stands behind it. -/
theorem reads_skip {text : List Char} (h : IsValue text) : Reads skip () text where
  begins := h.begins
  run := by
    intro left rest hleft hrest
    refine (reads_skipWithin h (Nat.le_succ_of_le ?_)).run hleft hrest
    simp only [List.length_append]
    omega

/-! ## Steady readers of values -/

/-- A reader is steady on a text that it does not take. -/
theorem steady_of_not_ok {f : Char → Reader α} {c : Char} {text : List Char}
    (hc : isBlank c = false) (hc' : c ≠ ']') (h : Gives (f c) fun _ => False) :
    Steady (peek >>= f) (c :: text) :=
  steady_peek hc hc' fun _ hrun => (h _ _ _ hrun).elim

/-- A reader that meets a bracket and takes an array is steady, if it takes always what it takes
once of the items. -/
theorem steady_brackets {inner : List Char} (hinner : Blank inner) {items : List Item}
    {f : Char → Reader α} {r : Reader α} (hf : f '[' = discard take >>= fun _ => r)
    (h : Closes r true items) : Steady (peek >>= f) (brackets inner items) := by
  refine steady_peek rfl (by decide) fun {rest rest' a} _ hrun rest₂ _ => ?_
  rw [hf] at hrun ⊢
  obtain ⟨⟨⟩, mid, htake, ha⟩ := bind_eq_ok_iff.1 hrun
  cases htake
  exact (bind_of_ok (discard_take_cons _ _)).trans (h _ _ _ _ _ blank_nil hinner ha rest₂)

/-- A reader that meets a brace and takes an object is steady, if the readers of the members'
values are. -/
theorem steady_braces {inner : List Char} (hinner : Blank inner) {members : List Member}
    {f : Char → Reader α} {g : σ → Reader α} {member : String → σ → Except Fault (Reader σ)}
    {s : σ} (hf : f '{' = object member s >>= g)
    (h : ∀ m ∈ members, ∀ k s r, member k s = .ok r → Steady r m.item.text)
    (hg : ∀ s, Idle (g s)) : Steady (peek >>= f) (braces inner members) := by
  have hkeys (m : Member) (_ : m ∈ members) {rest rest' : List Char} {k : String}
      (hrun : quoted (m.key ++ rest) = .ok (k, rest')) (rest : List Char) :
      quoted (m.key ++ rest) = .ok (k, rest) := quoted_of_isString m.isString_key hrun rest
  refine steady_peek rfl (by decide) fun {rest rest' a} _ hrun => ?_
  rw [hf] at hrun ⊢
  obtain ⟨s', mid, hobject, ha⟩ := bind_eq_ok_iff.1 hrun
  obtain ⟨hamounts, -⟩ := (objectWith_braces_eq_ok_iff hinner hkeys h).1 hobject
  intro rest _
  exact (bind_of_ok (objectWith_braces hinner hamounts rest)).trans (hg s' _ _ _ ha rest)

/-- Whether a value is an array, an object or neither decides what a reader does with it. -/
theorem steady_of_opens {f : Char → Reader α}
    (harray : ∀ inner items, Blank inner → (∀ i ∈ items, IsValue i.text) →
      Steady (peek >>= f) (brackets inner items))
    (hobject : ∀ inner members, Blank inner → (∀ m ∈ members, IsValue m.item.text) →
      Steady (peek >>= f) (braces inner members))
    (hother : ∀ c, c ≠ '[' → c ≠ '{' → Gives (f c) fun _ => False) {text : List Char}
    (h : IsValue text) : Steady (peek >>= f) text := by
  obtain ⟨c, cs, rfl, hc⟩ := h.exists_opens
  by_cases hbracket : c = '['
  · obtain ⟨inner, items, hinner, hitems, htext⟩ := hc.isArray hbracket
    exact htext ▸ harray inner items hinner hitems
  by_cases hbrace : c = '{'
  · obtain ⟨inner, members, hinner, hmembers, htext⟩ := hc.isObject hbrace
    exact htext ▸ hobject inner members hinner hmembers
  · exact steady_of_not_ok hc.isBlank_eq hc.ne_bracket (hother c hbracket hbrace)

/-- Integers are taken, or not, whatever follows them. -/
theorem steady_integer {text : List Char} (h : IsValue text) : Steady integer text := by
  obtain ⟨c, cs, rfl, hc⟩ := h.exists_opens
  by_cases hnumber : beginsNumber c = true
  · refine steady_peek hc.isBlank_eq hc.ne_bracket fun {rest rest' n} hrest hrun rest₂ hrest₂ => ?_
    rw [if_pos hnumber] at hrun ⊢
    obtain ⟨v, mid, hv, hn⟩ := bind_eq_ok_iff.1 hrun
    rcases number_eq (hc.isNumber hnumber) with ⟨w, hw⟩ | ⟨e, he⟩
    · cases (hw hrest).symm.trans hv
      refine (bind_of_ok (hw hrest₂)).trans ?_
      cases v with
      | integer n =>
        cases hn
        rfl
      | decimal => cases hn
    · cases (he hrest).symm.trans hv
  · refine steady_of_not_ok hc.isBlank_eq hc.ne_bracket ?_
    rw [if_neg hnumber]
    exact gives_unexpected

/-- Strings are taken, or not, whatever follows them. -/
theorem steady_string {text : List Char} (h : IsValue text) : Steady string text := by
  obtain ⟨c, cs, rfl, hc⟩ := h.exists_opens
  by_cases hquote : c = '"'
  · refine steady_peek hc.isBlank_eq hc.ne_bracket fun {rest rest' s} _ hrun rest₂ _ => ?_
    rw [if_pos hquote] at hrun ⊢
    exact quoted_of_isString (hc.isString hquote) hrun rest₂
  · refine steady_of_not_ok hc.isBlank_eq hc.ne_bracket ?_
    rw [if_neg hquote]
    exact gives_unexpected

theorem steady_value_number {text : List Char} (h : IsNumber text) (depth : Nat) :
    Steady (value depth) text := by
  have hbegins := (IsValue.number h).begins
  obtain ⟨c, cs, htext, hc⟩ := h.exists_eq_cons
  have hvalue {left : List Char} (hleft : Blank left) (rest : List Char) :
      value depth (left ++ (text ++ rest)) = (Json.number <$> number) (text ++ rest) := by
    rw [htext]
    exact value_of_beginsNumber hleft hc depth _
  constructor
  intro left rest rest' v hleft hrest hrun
  rw [hvalue hleft] at hrun
  rcases number_eq h with ⟨n, hn⟩ | ⟨e, he⟩
  · rw [map_of_ok Json.number (hn hrest)] at hrun
    cases hrun
    refine ⟨hbegins, fun hleft hrest => ?_⟩
    rw [hvalue hleft]
    exact map_of_ok Json.number (hn hrest)
  · rw [map_of_error Json.number (he hrest)] at hrun
    cases hrun

theorem steady_value_string {text : List Char} (h : IsString text) (depth : Nat) :
    Steady (value depth) text := by
  have hbegins := (IsValue.string h).begins
  obtain ⟨strokes, -, htext⟩ := isString_iff.1 h
  have hvalue {left : List Char} (hleft : Blank left) (rest : List Char) :
      value depth (left ++ (text ++ rest)) = (Json.string <$> quoted) (text ++ rest) := by
    rw [htext]
    exact value_eq_scalar hleft (c := '"') rfl (by decide) (by decide) depth _
  constructor
  intro left rest rest' v hleft _ hrun
  rw [hvalue hleft] at hrun
  obtain ⟨s, hs, rfl⟩ := map_eq_ok_iff.1 hrun
  refine ⟨hbegins, fun {left rest} hleft _ => ?_⟩
  rw [hvalue hleft]
  exact map_of_ok Json.string (quoted_of_isString h hs rest)

/-- **Values are kept, or not, whatever follows them.** -/
theorem steady_value {text : List Char} (h : IsValue text) (depth : Nat) :
    Steady (value depth) text := by
  induction h generalizing depth with
  | null => exact (reads_value_scalar .compact 0 (v := .null) trivial depth).steady
  | true => exact (reads_value_scalar .compact 0 (v := .bool true) trivial depth).steady
  | false => exact (reads_value_scalar .compact 0 (v := .bool false) trivial depth).steady
  | number h => exact steady_value_number h depth
  | string h => exact steady_value_string h depth
  | array hinner h ih =>
    cases depth with
    | zero => exact steady_of_not_ok rfl (by decide) (gives_throw _)
    | succ depth =>
      exact steady_brackets hinner (by rw [Reader.array, bind_assoc]; rfl) <|
        closes_items (fun i hi => ⟨(h i hi).begins, ih i hi depth⟩) fun as => idle_pure _
  | object hinner h ih =>
    cases depth with
    | zero => exact steady_of_not_ok rfl (by decide) (gives_throw _)
    | succ depth =>
      refine steady_braces hinner (by rw [members, bind_assoc]; rfl) ?_
        fun ms : List (String × Json) => idle_pure (Json.object ms.reverse)
      rintro m hm k before r ⟨⟩
      exact (ih m hm depth).map _

end Reader
end PointerMotion.Json
