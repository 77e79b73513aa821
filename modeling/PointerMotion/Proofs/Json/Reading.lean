import PointerMotion.Json.Reader

/-!
# What it means that a reader reads a text

A reader is given more than the text it is about: what it reads stands at the front, and the rest
of the document follows.  So the statement that a reader `r` reads a text as a value is about
*every* rest that may follow it, `Reads r a text`.

Two sides of the text need care.

## In front

Blanks may stand before a value, and no reader of a value is disturbed by them.  The text itself
begins with something that is neither a blank nor a closing bracket, because this is how a reader
of an array sees that there is another item.

## Behind

A number has no end of its own: it ends where something follows that is not part of a number.
After every value of a document there is a blank, a comma, a closing bracket, or nothing at all,
and each of these ends a number.  `Delimited rest` says this of what follows, and every statement
about reading assumes it and restores it.

`Rejects r e text` is the counterpart: the reader fails at the text, with the same fault whatever
stands on either side.

## Repetition

`Reader.loop` has a bound that it computes from the text.  `Runs` is the same repetition without
a bound, and `loop_of_runs` says that the bound is never met as long as every step takes
something.  `Stalls` is a repetition that comes to a step that fails.
-/

namespace PointerMotion.Json.Reader

variable {α β σ : Type}

/-! ## Steps in sequence -/

/-- Where the first reader succeeds, the second goes on with its value and its rest. -/
theorem bind_of_ok {m : Reader α} {f : α → Reader β} {text rest : List Char} {a : α}
    (h : m text = .ok (a, rest)) : (m >>= f) text = f a rest := by
  show (m text >>= fun p => f p.1 p.2) = f a rest
  rw [h]
  rfl

/-- Two readers in sequence succeed exactly if both do. -/
theorem bind_eq_ok_iff {m : Reader α} {f : α → Reader β} {text rest : List Char} {b : β} :
    (m >>= f) text = .ok (b, rest) ↔
      ∃ a mid, m text = .ok (a, mid) ∧ f a mid = .ok (b, rest) := by
  show (m text >>= fun p => f p.1 p.2) = .ok (b, rest) ↔ _
  constructor
  · intro h
    rcases hm : m text with e | ⟨a, mid⟩
    · rw [hm] at h
      cases h
    · rw [hm] at h
      exact ⟨a, mid, rfl, h⟩
  · rintro ⟨a, mid, hm, hf⟩
    rw [hm]
    exact hf

/-- A value is changed exactly if there is one. -/
theorem map_eq_ok_iff {r : Reader α} {f : α → β} {text rest : List Char} {b : β} :
    (f <$> r) text = .ok (b, rest) ↔ ∃ a, r text = .ok (a, rest) ∧ f a = b := by
  show (r >>= fun a => pure (f a)) text = .ok (b, rest) ↔ _
  rw [bind_eq_ok_iff]
  constructor
  · rintro ⟨a, mid, ha, hb⟩
    cases hb
    exact ⟨a, ha, rfl⟩
  · rintro ⟨a, ha, rfl⟩
    exact ⟨a, rest, ha, rfl⟩

/-- A value is changed without taking anything. -/
theorem map_of_ok {r : Reader α} {text rest : List Char} {a : α} (f : α → β)
    (h : r text = .ok (a, rest)) : (f <$> r) text = .ok (f a, rest) := by
  show (r text >>= fun p => Except.ok (f p.1, p.2)) = .ok (f a, rest)
  rw [h]
  rfl

/-- Where the first reader fails, so do both. -/
theorem bind_of_error {m : Reader α} {f : α → Reader β} {text : List Char} {e : Fault}
    (h : m text = .error e) : (m >>= f) text = .error e := by
  show (m text >>= fun p => f p.1 p.2) = .error e
  rw [h]
  rfl

theorem map_of_error {r : Reader α} {text : List Char} {e : Fault} (f : α → β)
    (h : r text = .error e) : (f <$> r) text = .error e := by
  show (r text >>= fun p => Except.ok (f p.1, p.2)) = .error e
  rw [h]
  rfl

@[simp] theorem pure_run (a : α) (text : List Char) : (pure a : Reader α) text = .ok (a, text) :=
  rfl

@[simp] theorem throw_run (e : Fault) (text : List Char) :
    (throw e : Reader α) text = .error e := rfl

@[simp] theorem discard_take_cons (c : Char) (rest : List Char) :
    discard take (c :: rest) = .ok ((), rest) := rfl

/-! ## Blanks -/

/-- A text of blanks only. -/
def Blank (blanks : List Char) : Prop := ∀ c ∈ blanks, isBlank c = true

theorem blank_nil : Blank [] := by
  intro c hc
  cases hc

/-- Looking at the next character skips the blanks before it. -/
theorem peek_blank {blanks : List Char} (hb : Blank blanks) {c : Char} (hc : isBlank c = false)
    (rest : List Char) : peek (blanks ++ c :: rest) = .ok (c, c :: rest) := by
  have h : (blanks ++ c :: rest).dropWhile isBlank = c :: rest := by
    rw [List.dropWhile_append_of_pos hb, List.dropWhile_cons_of_neg (by simp [hc])]
  simp only [peek, h]

theorem peek_cons {c : Char} (hc : isBlank c = false) (rest : List Char) :
    peek (c :: rest) = .ok (c, c :: rest) :=
  peek_blank blank_nil hc rest

/-- A mark is taken together with the blanks before it. -/
theorem punctuation_blank {blanks : List Char} (hb : Blank blanks) {c : Char}
    (hc : isBlank c = false) (rest : List Char) :
    punctuation c (blanks ++ c :: rest) = .ok ((), rest) := by
  rw [punctuation, bind_of_ok (peek_blank hb hc rest), if_pos rfl, discard_take_cons]

theorem punctuation_cons {c : Char} (hc : isBlank c = false) (rest : List Char) :
    punctuation c (c :: rest) = .ok ((), rest) :=
  punctuation_blank blank_nil hc rest

/-! ## The two sides of a text -/

/-- Something stands at the front which is neither a blank nor the end of an array. -/
def Begins (text : List Char) : Prop :=
  ∃ c rest, text = c :: rest ∧ isBlank c = false ∧ c ≠ ']'

theorem Begins.append {text : List Char} (h : Begins text) (rest : List Char) :
    Begins (text ++ rest) := by
  obtain ⟨c, cs, rfl, hc, hne⟩ := h
  exact ⟨c, cs ++ rest, rfl, hc, hne⟩

/-- A character that ends whatever stands before it. -/
def isDelimiter (c : Char) : Bool := isBlank c || c == ',' || c == ']' || c == '}'

/-- What follows a value in a document: it is empty, or begins with a delimiter. -/
def Delimited (rest : List Char) : Prop := ∀ c ∈ rest.head?, isDelimiter c = true

theorem delimited_nil : Delimited [] := by
  intro c hc
  cases hc

theorem delimited_cons {c : Char} (hc : isDelimiter c = true) (rest : List Char) :
    Delimited (c :: rest) := by
  intro d hd
  rw [List.head?_cons, Option.mem_some] at hd
  exact hd ▸ hc

/-- Blanks do not hide a delimiter. -/
theorem delimited_blank_append {blanks : List Char} (hb : Blank blanks) {rest : List Char}
    (hr : Delimited rest) : Delimited (blanks ++ rest) := by
  cases blanks with
  | nil => exact hr
  | cons c blanks =>
    refine delimited_cons ?_ _
    rw [isDelimiter, hb c List.mem_cons_self]
    rfl

/-- **The reader takes the text for the value**, whatever blanks stand before it and whatever
delimited rest follows it. -/
structure Reads (r : Reader α) (a : α) (text : List Char) : Prop where
  begins : Begins text
  run : ∀ {blanks rest : List Char}, Blank blanks → Delimited rest →
    r (blanks ++ (text ++ rest)) = .ok (a, rest)

/-- Without blanks in front. -/
theorem Reads.run_front {r : Reader α} {a : α} {text rest : List Char} (h : Reads r a text)
    (hr : Delimited rest) : r (text ++ rest) = .ok (a, rest) :=
  h.run blank_nil hr

/-- **The reader fails at the text**, whatever blanks stand before it and whatever delimited rest
follows it. -/
structure Rejects (r : Reader α) (e : Fault) (text : List Char) : Prop where
  begins : Begins text
  run : ∀ {blanks rest : List Char}, Blank blanks → Delimited rest →
    r (blanks ++ (text ++ rest)) = .error e

/-- A reader that first looks at the next character need only be studied without blanks. -/
theorem reads_peek {f : Char → Reader α} {a : α} {c : Char} {text : List Char}
    (hc : isBlank c = false) (hc' : c ≠ ']')
    (h : ∀ rest, Delimited rest → f c (c :: (text ++ rest)) = .ok (a, rest)) :
    Reads (peek >>= f) a (c :: text) where
  begins := ⟨c, text, rfl, hc, hc'⟩
  run := by
    intro blanks rest hb hr
    rw [List.cons_append, bind_of_ok (peek_blank hb hc _)]
    exact h rest hr

/-- The value read may be changed. -/
theorem Reads.map {r : Reader α} {a : α} {text : List Char} (h : Reads r a text) (f : α → β) :
    Reads (f <$> r) (f a) text where
  begins := h.begins
  run hb hr := map_of_ok f (h.run hb hr)

/-- What is done after a value is read, without taking more, is done to the value. -/
theorem Reads.bind {r : Reader α} {a : α} {text : List Char} (h : Reads r a text)
    {f : α → Reader β} {b : β} (hf : ∀ rest, f a rest = .ok (b, rest)) :
    Reads (r >>= f) b text where
  begins := h.begins
  run hb hr := (bind_of_ok (h.run hb hr)).trans (hf _)

/-- **A whole text is read** if it is the text of a value and nothing else. -/
theorem Reads.parse {r : Reader α} {a : α} {text : List Char} (h : Reads r a text) :
    r.parse (String.ofList text) = .ok a := by
  have hrun : r (String.ofList text).toList = .ok (a, []) := by
    rw [String.toList_ofList]
    have := h.run_front delimited_nil
    rwa [List.append_nil] at this
  rw [Reader.parse, hrun]
  rfl

/-! ## Repetition -/

/-- A step is repeated until it is done, and takes something each time before. -/
inductive Runs (step : σ → Reader (Option σ)) : σ → List Char → σ → List Char → Prop where
  | done {s : σ} {text rest : List Char} (h : step s text = .ok (none, rest)) :
      Runs step s text s rest
  | next {s s' s'' : σ} {text mid rest : List Char} (h : step s text = .ok (some s', mid))
      (hlt : mid.length < text.length) (hrest : Runs step s' mid s'' rest) :
      Runs step s text s'' rest

theorem iterate_of_runs {step : σ → Reader (Option σ)} {s s' : σ} {text rest : List Char}
    (h : Runs step s text s' rest) :
    ∀ n, text.length < n → iterate step n s text = .ok (s', rest) := by
  induction h with
  | done h =>
    intro n hn
    cases n with
    | zero => omega
    | succ n => rw [iterate, bind_of_ok h]; rfl
  | next h hlt _ ih =>
    intro n hn
    cases n with
    | zero => omega
    | succ n =>
      rw [iterate, bind_of_ok h]
      exact ih n (by omega)

/-- The bound of a loop is not met. -/
theorem loop_of_runs {step : σ → Reader (Option σ)} {s s' : σ} {text rest : List Char}
    (h : Runs step s text s' rest) : loop step s text = .ok (s', rest) :=
  iterate_of_runs h _ (Nat.lt_succ_self _)

/-- A step is repeated until it fails, and takes something each time before. -/
inductive Stalls (step : σ → Reader (Option σ)) (e : Fault) : σ → List Char → Prop where
  | now {s : σ} {text : List Char} (h : step s text = .error e) : Stalls step e s text
  | next {s s' : σ} {text rest : List Char} (h : step s text = .ok (some s', rest))
      (hlt : rest.length < text.length) (hrest : Stalls step e s' rest) : Stalls step e s text

theorem iterate_of_stalls {step : σ → Reader (Option σ)} {e : Fault} {s : σ} {text : List Char}
    (h : Stalls step e s text) : ∀ n, text.length < n → iterate step n s text = .error e := by
  induction h with
  | now h =>
    intro n hn
    cases n with
    | zero => omega
    | succ n =>
      rw [iterate]
      exact bind_of_error h
  | next h hlt _ ih =>
    intro n hn
    cases n with
    | zero => omega
    | succ n =>
      rw [iterate, bind_of_ok h]
      exact ih n (by omega)

/-- A loop fails as a step of it does; its bound is not met. -/
theorem loop_of_stalls {step : σ → Reader (Option σ)} {e : Fault} {s : σ} {text : List Char}
    (h : Stalls step e s text) : loop step s text = .error e :=
  iterate_of_stalls h _ (Nat.lt_succ_self _)

end PointerMotion.Json.Reader
