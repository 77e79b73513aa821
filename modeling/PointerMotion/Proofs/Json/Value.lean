import PointerMotion.Proofs.Json.Container

/-!
# Values are kept as they are written

`Reader.value` keeps whatever it meets, up to a depth.  A value `Fits` a depth if no more
containers are inside each other in it, and if its numbers are integers of 64 bits, the only
numbers that are written as what they are.  `reads_value` says that such a value is kept as it is,
in every layout that adds blanks only.  Whether it fits or not, its text is in the grammar
(`isValue_render`).

The recursion is on the depth, for the reader, for `Fits` and for the statement alike; a value is
taken apart only at its outermost bracket.
-/

namespace PointerMotion.Json

open Reader

/-- No more containers are inside each other than the depth says, and all numbers are integers of
64 bits. -/
def Fits : Nat → Json → Prop
  | _, .null => True
  | _, .bool _ => True
  | _, .string _ => True
  | _, .number (.integer n) => IsWord n
  | _, .number (.decimal ..) => False
  | depth + 1, .array items => ∀ v ∈ items, Fits depth v
  | depth + 1, .object members => ∀ m ∈ members, Fits depth m.2
  | 0, .array _ => False
  | 0, .object _ => False

@[simp] theorem fits_integer (depth : Nat) (n : Int) : (integer n).Fits depth ↔ IsWord n := by
  cases depth <;> exact Iff.rfl

theorem Fits.mono {depth depth' : Nat} {v : Json} (h : v.Fits depth) (hle : depth ≤ depth') :
    v.Fits depth' := by
  induction depth generalizing v depth' with
  | zero =>
    cases v with
    | number n => cases n <;> cases depth' <;> exact h
    | array => exact h.elim
    | object => exact h.elim
    | _ => cases depth' <;> trivial
  | succ depth ih =>
    obtain ⟨depth', rfl⟩ : ∃ n, depth' = n + 1 := ⟨depth' - 1, by omega⟩
    have hle : depth ≤ depth' := by omega
    cases v with
    | number n => cases n <;> exact h
    | array items => exact fun v hv => ih (h v hv) hle
    | object members => exact fun m hm => ih (h m hm) hle
    | _ => trivial

/-! ## The grammar -/

/-- **The text of a value is in the grammar.** -/
theorem isValue_render {layout : Layout} (hl : layout.AddsBlanks) (depth : Nat) (v : Json) :
    IsValue (v.render layout depth) := by
  match v with
  | .null => exact .null
  | .bool true => exact .true
  | .bool false => exact .false
  | .number n => exact .number (isNumber_text n)
  | .string s => exact .string (isString_quote s)
  | .array items =>
    rw [render_array, Layout.enclose_eq_brackets hl]
    refine .array (hl.blank_closing depth true _) fun i hi => ?_
    obtain ⟨text, htext, rfl⟩ := List.mem_map.1 hi
    obtain ⟨v, hv, rfl⟩ := List.mem_map.1 htext
    exact isValue_render hl (depth + 1) v
  | .object members =>
    rw [render_object, Layout.enclose_eq_braces hl]
    refine .object (hl.blank_closing depth true _) fun m hm => ?_
    obtain ⟨p, hp, rfl⟩ := List.mem_map.1 hm
    obtain ⟨⟨key, v⟩, hv, rfl⟩ := List.mem_map.1 hp
    exact isValue_render hl (depth + 1) v
termination_by sizeOf v
decreasing_by
  · have := List.sizeOf_lt_of_mem hv
    simp only [Json.array.sizeOf_spec]
    omega
  · have := List.sizeOf_lt_of_mem hv
    simp only [Json.object.sizeOf_spec, Prod.mk.sizeOf_spec] at this ⊢
    omega

namespace Reader

/-! ## Scalars -/

/-- An integer begins with a sign or a digit. -/
theorem exists_text_integer_eq_cons (n : Int) : ∃ c rest,
    (Number.integer n).text = c :: rest ∧ beginsNumber c = true := by
  rw [text_integer]
  split
  · exact ⟨'-', _, rfl, rfl⟩
  · cases h : Nat.toDigits 10 n.natAbs with
    | nil => exact absurd h Nat.toDigits_ne_nil
    | cons d ds =>
      refine ⟨d, ds, rfl, ?_⟩
      have hd := (isDigits_toDigits n.natAbs).2 d (h ▸ List.mem_cons_self)
      rw [beginsNumber, hd, Bool.or_true]

/-- What begins a number begins nothing else. -/
theorem ne_of_beginsNumber {c d : Char} (hc : beginsNumber c = true)
    (hd : beginsNumber d = false) : c ≠ d := by
  rintro rfl
  rw [hc] at hd
  cases hd

theorem isBlank_of_beginsNumber {c : Char} (hc : beginsNumber c = true) : isBlank c = false := by
  rw [← Bool.not_eq_true]
  intro h
  simp only [isBlank, Bool.or_eq_true, beq_iff_eq] at h
  rcases h with ((h | h) | h) | h <;> exact ne_of_beginsNumber hc rfl h

/-- A scalar that begins like a number is left to the reader of numbers. -/
theorem scalarWith_of_beginsNumber {string number : Reader Json} {c : Char}
    (hc : beginsNumber c = true) (text : List Char) :
    scalarWith string number (c :: text) = number (c :: text) := by
  rw [scalarWith, bind_of_ok (peek_cons (isBlank_of_beginsNumber hc) text)]
  split
  iterate 4 exact absurd rfl (ne_of_beginsNumber hc rfl)
  rw [if_pos hc]

/-- Integers, where a scalar is wanted. -/
theorem reads_scalar_integer {n : Int} (hn : IsWord n) :
    Reads scalar (.integer n) (Number.integer n).text := by
  obtain ⟨c, text, htext, hc⟩ := exists_text_integer_eq_cons n
  rw [htext]
  refine reads_peek (isBlank_of_beginsNumber hc) (ne_of_beginsNumber hc rfl) fun rest hr => ?_
  have hnumber := map_of_ok Json.number (number_text hn hr)
  rw [htext] at hnumber
  have hscalar : scalar (c :: (text ++ rest)) = .ok (.integer n, rest) :=
    (scalarWith_of_beginsNumber hc _).trans hnumber
  exact (bind_of_ok (peek_cons (isBlank_of_beginsNumber hc) _)).symm.trans hscalar

/-- Integers, where an integer is wanted. -/
theorem reads_integer {n : Int} (hn : IsWord n) :
    Reads Reader.integer n (Number.integer n).text := by
  obtain ⟨c, text, htext, hc⟩ := exists_text_integer_eq_cons n
  rw [htext]
  refine reads_peek (isBlank_of_beginsNumber hc) (ne_of_beginsNumber hc rfl) fun rest hr => ?_
  have hnumber := number_text hn hr
  rw [htext] at hnumber
  rw [if_pos hc]
  exact bind_of_ok hnumber

/-- Strings, where a string is wanted. -/
theorem reads_string (s : String) : Reads Reader.string s (quote s) :=
  reads_peek rfl (by decide) fun rest _ => quoted_quote s rest

/-- A value that was wanted among others is read as what it stands for. -/
theorem reads_wanted {α β : Type} {r : Reader α} {a : α} {text : List Char} (h : Reads r a text)
    {want : α → Option β} {b : β} (hb : want a = some b) : Reads (wanted r want) b text := by
  refine h.bind fun rest => ?_
  rw [hb]
  rfl

/-- **A scalar is kept as it is written.** -/
theorem reads_scalar (layout : Layout) (d : Nat) {v : Json} (hv : v.Fits 0) :
    Reads scalar v (v.render layout d) := by
  cases v with
  | null => exact reads_peek rfl (by decide) fun rest _ => rfl
  | bool b => cases b <;> exact reads_peek rfl (by decide) fun rest _ => rfl
  | number n =>
    cases n with
    | integer n => exact reads_scalar_integer hv
    | decimal => exact hv.elim
  | string s =>
    refine reads_peek rfl (by decide) fun rest _ => ?_
    exact map_of_ok Json.string (quoted_quote s rest)
  | array => exact hv.elim
  | object => exact hv.elim

theorem exists_render_scalar_eq_cons (layout : Layout) (d : Nat) {v : Json} (hv : v.Fits 0) :
    ∃ c text, v.render layout d = c :: text ∧ c ≠ '[' ∧ c ≠ '{' := by
  cases v with
  | null => exact ⟨'n', _, rfl, by decide, by decide⟩
  | bool b => cases b <;> exact ⟨_, _, rfl, by decide, by decide⟩
  | number n =>
    cases n with
    | integer n =>
      obtain ⟨c, text, htext, hc⟩ := exists_text_integer_eq_cons n
      exact ⟨c, text, htext, ne_of_beginsNumber hc rfl, ne_of_beginsNumber hc rfl⟩
    | decimal => exact hv.elim
  | string s => exact ⟨'"', _, rfl, by decide, by decide⟩
  | array => exact hv.elim
  | object => exact hv.elim

/-! ## Values -/

/-- What opens no container is left to the reader of scalars, at every depth. -/
theorem value_eq_scalar {blanks : List Char} (hb : Blank blanks) {c : Char}
    (hc : isBlank c = false) (hbracket : c ≠ '[') (hbrace : c ≠ '{') (depth : Nat)
    (text : List Char) : value depth (blanks ++ c :: text) = scalar (c :: text) := by
  cases depth <;>
  · rw [value, bind_of_ok (peek_blank hb hc _)]
    split
    · exact absurd rfl hbracket
    · exact absurd rfl hbrace
    · rfl

/-- Where a value that begins like a number is to be kept, a number is read. -/
theorem value_of_beginsNumber {left : List Char} (hleft : Blank left) {c : Char}
    (hc : beginsNumber c = true) (depth : Nat) (text : List Char) :
    value depth (left ++ c :: text) = (Json.number <$> number) (c :: text) := by
  rw [value_eq_scalar hleft (isBlank_of_beginsNumber hc) (ne_of_beginsNumber hc rfl)
    (ne_of_beginsNumber hc rfl)]
  exact scalarWith_of_beginsNumber hc text

/-- A scalar is kept at every depth. -/
theorem reads_value_scalar (layout : Layout) (d : Nat) {v : Json} (hv : v.Fits 0) (depth : Nat) :
    Reads (value depth) v (v.render layout d) where
  begins := (reads_scalar layout d hv).begins
  run := by
    intro blanks rest hb hr
    have hscalar := (reads_scalar layout d hv).run_front hr
    obtain ⟨c, text, htext, hbracket, hbrace⟩ := exists_render_scalar_eq_cons layout d hv
    obtain ⟨c', text', htext', hc, -⟩ := (reads_scalar layout d hv).begins
    obtain ⟨rfl, rfl⟩ := List.cons.inj (htext.symm.trans htext')
    rw [htext, List.cons_append] at hscalar ⊢
    rw [value_eq_scalar hb hc hbracket hbrace, hscalar]

/-- Members are collected in their order, whatever they are. -/
theorem collects_members {layout : Layout} {depth : Nat} {members : List (String × Json)} (d : Nat)
    (h : ∀ m ∈ members, Reads (value depth) m.2 (m.2.render layout d))
    (before : List (String × Json)) :
    Collects (fun key before => .ok ((fun v => (key, v) :: before) <$> value depth)) before
      (members.map fun m => (m.1, m.2.render layout d)) (members.reverse ++ before) := by
  induction members generalizing before with
  | nil => exact .nil before
  | cons m members ih =>
    have hm := h m List.mem_cons_self
    have hrest := ih (fun m hm => h m (List.mem_cons_of_mem _ hm)) (m :: before)
    rw [List.reverse_cons, List.append_assoc]
    exact .cons rfl (hm.map _) hrest

/-- **A value is kept as it is written**, if it fits. -/
theorem reads_value {layout : Layout} (hl : layout.AddsBlanks) {depth : Nat} {v : Json}
    (hv : v.Fits depth) (d : Nat) : Reads (value depth) v (v.render layout d) := by
  induction depth generalizing v d with
  | zero => exact reads_value_scalar layout d hv 0
  | succ depth ih =>
    cases v with
    | array items =>
      rw [render_array, Layout.enclose_eq]
      refine reads_peek rfl (by decide) fun rest _ => ?_
      have harray := array_enclose hl d (a := id) items (fun v hi => ih (hv v hi) (d + 1)) rest
      rw [Layout.enclose_eq, List.map_id] at harray
      exact bind_of_ok harray
    | object ms =>
      have hcollects := collects_members (d + 1) (fun m hm => ih (hv m hm) (d + 1)) []
      rw [List.append_nil] at hcollects
      rw [render_object]
      refine reads_braces hl d (by rw [members, bind_assoc]; rfl) hcollects fun rest => ?_
      rw [pure_bind, List.reverse_reverse]
      rfl
    | null => exact reads_value_scalar layout d (v := .null) trivial (depth + 1)
    | bool b => exact reads_value_scalar layout d (v := .bool b) trivial (depth + 1)
    | string s => exact reads_value_scalar layout d (v := .string s) trivial (depth + 1)
    | number n =>
      cases n with
      | integer n => exact reads_value_scalar layout d (v := .integer n) hv (depth + 1)
      | decimal => exact hv.elim

end Reader
end PointerMotion.Json
