import PointerMotion.Proofs.Document.Members
import PointerMotion.Proofs.Json.Rejecting
import PointerMotion.Settings.Toml

/-!
# Settings are the same in either kind of document

Settings may be lines with a key and a number each, or an object with a member for each.  The two
kinds of documents are read by readers that have nothing in common: one takes a line apart and then
looks whether there is a timing of that name, the other asks the state for a reader before it has
seen the value.  So they reject in different ways.  A number out of range is a line that stands for
no duration on one side; on the other it may not even count as an integer.

What they do with an entry that they accept is the same, though, and so is the set of entries that
they accept: both are `Found.add?`.  Either document is the run of it over the entries, which
succeeds exactly if they are timings, each given once and in range (`AreTimings`).
-/

namespace PointerMotion.Settings

open Json (IsValue Member ObjectText quote)
open Json.Reader hiding isBlank

/-- A key that may stand without quotes, and an integer. -/
structure Entry where
  key : String
  value : Int
  key_ne_nil : key.toList ≠ []
  isBare_of_mem : ∀ c ∈ key.toList, Toml.isBare c = true

/-- The line of an entry. -/
def Entry.line (e : Entry) : List Char :=
  e.key.toList ++ ([' ', '=', ' '] ++ (Json.Number.integer e.value).text)

/-- The document with a line for each entry.  The last line may be ended as well. -/
def toToml (entries : List Entry) (ended : Bool) : String :=
  String.ofList (['\n'].intercalate (entries.map Entry.line ++ if ended then [[]] else []))

/-- The object with a member for each entry. -/
def entriesToJson (entries : List Entry) : Json :=
  .object (entries.map fun e => (e.key, .integer e.value))

/-- The entries are timings, none of them twice, in numbers below `2 ^ 64`. -/
def AreTimings (entries : List Entry) : Prop :=
  (entries.map Entry.key).Nodup ∧ ∀ e ∈ entries,
    (e.key = Field.longPress.key ∨ e.key = Field.pressed.key) ∧
      0 ≤ e.value ∧ e.value ≤ Duration.greatestWritten

instance (entries : List Entry) : Decidable (AreTimings entries) :=
  inferInstanceAs (Decidable (_ ∧ _))

/-- The duration that a number in range stands for: so many milliseconds, or the longest one for
the greatest number. -/
def Entry.duration (e : Entry) : Duration :=
  if e.value = Duration.greatestWritten then .longest else .ofMillis e.value.toNat

/-- The duration that is given for a timing. -/
def given? (entries : List Entry) (field : Field) : Option Duration :=
  (entries.find? (·.key == field.key)).map Entry.duration

/-- The settings that entries give. -/
def ofEntries (entries : List Entry) : Settings where
  longPress := (given? entries .longPress).getD (.ofMillis 400)
  pressed := (given? entries .pressed).getD (.ofMillis 64)

/-! ## One entry after the other -/

/-- What was found, with one more entry. -/
def Found.add? (f : Found) (e : Entry) : Option Found := do
  let field ← Field.ofKey? e.key
  if (f.get? field).isSome then none else return f.put field (← Duration.ofWritten? e.value)

theorem Found.add?_eq_some_iff {f f' : Found} {e : Entry} :
    f.add? e = some f' ↔ ∃ field, Field.ofKey? e.key = some field ∧ f.get? field = none ∧
      ∃ d, Duration.ofWritten? e.value = some d ∧ f.put field d = f' := by
  rw [add?, Option.bind_eq_bind, Option.bind_eq_some_iff]
  refine exists_congr fun field => and_congr_right fun _ => ?_
  cases f.get? field <;> simp [Option.bind_eq_some_iff]

theorem Found.ext_get? {f f' : Found} (h : ∀ field, f.get? field = f'.get? field) : f = f' := by
  obtain ⟨_, _⟩ := f
  obtain ⟨_, _⟩ := f'
  cases h .longPress
  cases h .pressed
  rfl

theorem Field.ofKey?_eq_some_iff {key : String} {field : Field} :
    ofKey? key = some field ↔ field.key = key := by
  constructor
  · exact key_of_ofKey?
  · rintro rfl
    exact ofKey?_key field

theorem Field.key_inj {field field' : Field} : field.key = field'.key ↔ field = field' := by
  cases field <;> cases field' <;> decide

theorem Field.exists_key_eq_iff {key : String} :
    (∃ field : Field, field.key = key) ↔ key = longPress.key ∨ key = pressed.key := by
  constructor
  · rintro ⟨_ | _, rfl⟩
    · exact .inl rfl
    · exact .inr rfl
  · rintro (rfl | rfl)
    · exact ⟨longPress, rfl⟩
    · exact ⟨pressed, rfl⟩

theorem ofWritten?_eq_some_iff {n : Int} {d : Duration} :
    Duration.ofWritten? n = some d ↔ (0 ≤ n ∧ n ≤ Duration.greatestWritten) ∧
      (if n = Duration.greatestWritten then .longest else .ofMillis n.toNat) = d := by
  unfold Duration.ofWritten?
  grind

section

variable {e : Entry} {entries : List Entry} {field : Field}

theorem given?_cons_self (h : e.key = field.key) :
    given? (e :: entries) field = some e.duration := by
  rw [given?, List.find?_cons_of_pos (by simpa using h), Option.map_some]

theorem given?_cons_of_ne (h : e.key ≠ field.key) :
    given? (e :: entries) field = given? entries field := by
  rw [given?, List.find?_cons_of_neg (by simpa using h), ← given?]

theorem given?_eq_none (h : field.key ∉ entries.map Entry.key) : given? entries field = none := by
  rw [given?, Option.map_eq_none_iff, List.find?_eq_none]
  intro e he hkey
  exact h (List.mem_map.2 ⟨e, he, by simpa using hkey⟩)

end

/-- The entries can be added to what was found: no timing twice, and all in range. -/
def Found.Allows (f : Found) (entries : List Entry) : Prop :=
  (entries.map Entry.key).Nodup ∧ ∀ e ∈ entries,
    (∃ field : Field, field.key = e.key ∧ f.get? field = none) ∧
      0 ≤ e.value ∧ e.value ≤ Duration.greatestWritten

section

variable {f : Found} {e : Entry} {entries : List Entry} {field : Field}

theorem Found.get?_put_self (f : Found) (field : Field) (d : Duration) :
    (f.put field d).get? field = some d := by
  rw [get?_put, if_pos rfl]

theorem Found.get?_put_eq_none_iff {other : Field} {d : Duration} :
    (f.put field d).get? other = none ↔ field ≠ other ∧ f.get? other = none := by
  rw [get?_put]
  split <;> simp [*]

/-- A timing that was found is not among the entries. -/
theorem Found.Allows.key_not_mem (h : f.Allows entries) {d : Duration}
    (hd : f.get? field = some d) : field.key ∉ entries.map Entry.key := by
  intro hmem
  obtain ⟨e, he, hkey⟩ := List.mem_map.1 hmem
  obtain ⟨⟨field', hkey', hnone⟩, -⟩ := h.2 e he
  obtain rfl : field' = field := Field.key_inj.1 (hkey'.trans hkey)
  rw [hd] at hnone
  cases hnone

theorem Found.allows_cons_iff (hkey : field.key = e.key) :
    f.Allows (e :: entries) ↔ f.get? field = none ∧
      (0 ≤ e.value ∧ e.value ≤ Duration.greatestWritten) ∧
        (f.put field e.duration).Allows entries := by
  constructor
  · rintro ⟨hnodup, hall⟩
    obtain ⟨⟨⟨field', hkey', hnone⟩, hrange⟩, hall⟩ := List.forall_mem_cons.1 hall
    obtain ⟨hnew, hnodup⟩ := List.nodup_cons.1 hnodup
    obtain rfl : field' = field := Field.key_inj.1 (hkey'.trans hkey.symm)
    refine ⟨hnone, hrange, hnodup, fun e' he' => ?_⟩
    obtain ⟨⟨field'', hkey'', hnone'⟩, hrange'⟩ := hall e' he'
    refine ⟨⟨field'', hkey'', get?_put_eq_none_iff.2 ⟨?_, hnone'⟩⟩, hrange'⟩
    rintro rfl
    exact hnew (List.mem_map.2 ⟨e', he', hkey''.symm.trans hkey⟩)
  · rintro ⟨hnone, hrange, h⟩
    have hnew := h.key_not_mem (f.get?_put_self field e.duration)
    refine ⟨List.nodup_cons.2 ⟨hkey ▸ hnew, h.1⟩,
      List.forall_mem_cons.2 ⟨⟨⟨field, hkey, hnone⟩, hrange⟩, fun e' he' => ?_⟩⟩
    obtain ⟨⟨field', hkey', hnone'⟩, hrange'⟩ := h.2 e' he'
    exact ⟨⟨field', hkey', (get?_put_eq_none_iff.1 hnone').2⟩, hrange'⟩

/-- What is given by an entry that is put first is given before the others. -/
theorem given?_or_put (hkey : field.key = e.key) (hnew : field.key ∉ entries.map Entry.key)
    (other : Field) : (given? entries other).or ((f.put field e.duration).get? other) =
      (given? (e :: entries) other).or (f.get? other) := by
  rw [Found.get?_put]
  split
  · rename_i hsame
    subst hsame
    rw [given?_eq_none hnew, given?_cons_self hkey.symm]
    rfl
  · rename_i hne
    rw [given?_cons_of_ne fun h => hne (Field.key_inj.1 (hkey.trans h))]

end

/-- **What is found after entries** is what was given for each timing, or what was there before. -/
theorem foldlM_add?_eq_some_iff {entries : List Entry} {f f' : Found} :
    entries.foldlM Found.add? f = some f' ↔ f.Allows entries ∧
      ∀ field, f'.get? field = (given? entries field).or (f.get? field) := by
  induction entries generalizing f with
  | nil =>
    constructor
    · rintro ⟨⟩
      exact ⟨⟨List.nodup_nil, List.forall_mem_nil _⟩, fun field => rfl⟩
    · rintro ⟨-, hget⟩
      exact congrArg some (Found.ext_get? fun field => (hget field).symm)
  | cons e entries ih =>
    rw [List.foldlM_cons, Option.bind_eq_bind, Option.bind_eq_some_iff]
    constructor
    · rintro ⟨f₁, hf₁, hrest⟩
      obtain ⟨field, hfield, hnone, d, hd, rfl⟩ := Found.add?_eq_some_iff.1 hf₁
      have hkey := Field.ofKey?_eq_some_iff.1 hfield
      obtain ⟨hrange, rfl⟩ := ofWritten?_eq_some_iff.1 hd
      obtain ⟨hallows, hget⟩ := ih.1 hrest
      have hnew := hallows.key_not_mem (f.get?_put_self field e.duration)
      exact ⟨(Found.allows_cons_iff hkey).2 ⟨hnone, hrange, hallows⟩, fun other =>
        (hget other).trans (given?_or_put hkey hnew other)⟩
    · rintro ⟨hallows, hget⟩
      obtain ⟨field, hkey, -⟩ := (hallows.2 e List.mem_cons_self).1
      obtain ⟨hnone, hrange, hallows⟩ := (Found.allows_cons_iff hkey).1 hallows
      have hnew := hallows.key_not_mem (f.get?_put_self field e.duration)
      exact ⟨_, Found.add?_eq_some_iff.2 ⟨field, Field.ofKey?_eq_some_iff.2 hkey, hnone,
        e.duration, ofWritten?_eq_some_iff.2 ⟨hrange, rfl⟩, rfl⟩,
        ih.2 ⟨hallows, fun other =>
          (hget other).trans (given?_or_put hkey hnew other).symm⟩⟩

theorem allows_iff_areTimings {entries : List Entry} :
    ({} : Found).Allows entries ↔ AreTimings entries := by
  refine and_congr_right fun _ => forall₂_congr fun e _ => and_congr_left fun _ => ?_
  rw [← Field.exists_key_eq_iff]
  refine exists_congr fun field => and_iff_left ?_
  cases field <;> rfl

/-- **The entries that are settings.** -/
theorem foldlM_add?_map_settings (entries : List Entry) :
    (entries.foldlM Found.add? {}).map Found.settings =
      if AreTimings entries then some (ofEntries entries) else none := by
  have hiff (f : Found) : entries.foldlM Found.add? {} = some f ↔ AreTimings entries ∧
      ∀ field, f.get? field = (given? entries field).or (({} : Found).get? field) := by
    rw [foldlM_add?_eq_some_iff, allows_iff_areTimings]
  split
  · rename_i h
    have hgiven (field : Field) :
        (given? entries field).or (({} : Found).get? field) = given? entries field := by
      cases field <;> exact Option.or_none
    have hfold := (hiff ⟨given? entries .longPress, given? entries .pressed⟩).2
      ⟨h, fun field => by rw [hgiven]; cases field <;> rfl⟩
    rw [hfold]
    rfl
  · rename_i h
    rw [Option.map_eq_none_iff, Option.eq_none_iff_forall_ne_some]
    exact fun f hf => h ((hiff f).1 hf).1

/-! ## Lines -/

namespace Toml

/-- Nothing in the text ends a line. -/
def IsLine (text : List Char) : Prop := ∀ c ∈ text, c ≠ '\n' ∧ c ≠ '\r'

theorem lines_of_isLine {line : List Char} (h : IsLine line) : lines line = [line] := by
  induction line with
  | nil => rfl
  | cons c line ih =>
    obtain ⟨⟨hn, hr⟩, h⟩ := List.forall_mem_cons.1 h
    rw [lines, ih h]
    · exact hn
    · exact fun rest heq _ => hr heq

theorem lines_append_newline {line : List Char} (h : IsLine line) (rest : List Char) :
    lines (line ++ '\n' :: rest) = line :: lines rest := by
  induction line with
  | nil => rfl
  | cons c line ih =>
    obtain ⟨⟨hn, hr⟩, h⟩ := List.forall_mem_cons.1 h
    rw [List.cons_append, lines, ih h]
    · exact hn
    · exact fun rest heq _ => hr heq

/-- Lines that are put one under the other are the lines of the text. -/
theorem lines_intercalate {line : List Char} {others : List (List Char)}
    (h : ∀ line' ∈ line :: others, IsLine line') :
    lines (['\n'].intercalate (line :: others)) = line :: others := by
  induction others generalizing line with
  | nil =>
    rw [List.intercalate_singleton]
    exact lines_of_isLine (h line List.mem_cons_self)
  | cons next others ih =>
    obtain ⟨hline, hothers⟩ := List.forall_mem_cons.1 h
    rw [List.intercalate_cons_cons, List.append_assoc]
    exact (lines_append_newline hline _).trans (congrArg _ (ih hothers))

/-! ## Integers -/

theorem digit?_of_isDigit {c : Char} (h : c.isDigit = true) :
    digit? 10 c = some (c.toNat - '0'.toNat) := by
  rw [digit?, Json.Reader.hexValue?, if_pos h]
  exact if_pos (Json.Reader.sub_zero_lt_ten h)

theorem digitsFrom?_of_isDigit {ds : List Char} (h : ∀ c ∈ ds, c.isDigit = true) (n : Nat) :
    digitsFrom? 10 n ds = some (Nat.ofDigitChars 10 ds n) := by
  induction ds generalizing n with
  | nil => rfl
  | cons d ds ih =>
    obtain ⟨hd, hds⟩ := List.forall_mem_cons.1 h
    rw [digitsFrom?, digit?_of_isDigit hd, Nat.ofDigitChars_cons]
    · exact ih hds _
    · rintro c rest rfl
      cases hd

theorem digits?_of_isDigits {ds : List Char} (h : Json.IsDigits ds) :
    digits? 10 ds = some (Nat.ofDigitChars 10 ds 0) := by
  obtain ⟨hne, hds⟩ := h
  cases ds with
  | nil => exact absurd rfl hne
  | cons d ds =>
    obtain ⟨hd, hds⟩ := List.forall_mem_cons.1 hds
    rw [digits?, digit?_of_isDigit hd, Nat.ofDigitChars_cons, Nat.mul_zero, Nat.zero_add]
    exact digitsFrom?_of_isDigit hds _

theorem decimal?_of_isWholePart {ds : List Char} (h : Json.IsWholePart ds) :
    decimal? ds = some (Nat.ofDigitChars 10 ds 0) := by
  rcases h with rfl | ⟨hds, hzero⟩
  · rfl
  · unfold decimal?
    split
    · exact absurd rfl hzero
    · exact digits?_of_isDigits hds

theorem decimal?_toDigits (n : Nat) : decimal? (Nat.toDigits 10 n) = some n := by
  rw [decimal?_of_isWholePart (Json.Reader.isWholePart_toDigits n), Nat.ofDigitChars_ten_toDigits]

/-- What has digits only has neither a sign nor the letter of a base. -/
theorem integer?_of_isDigit {ds : List Char} (h : ∀ c ∈ ds, c.isDigit = true) :
    integer? ds = (decimal? ds).map Int.ofNat := by
  have hne {c : Char} (hc : c ∈ ds) (hdigit : c.isDigit = false) : False := by
    rw [h c hc] at hdigit
    cases hdigit
  unfold integer?
  split
  · exact (hne (c := 'x') (by simp) rfl).elim
  · exact (hne (c := 'o') (by simp) rfl).elim
  · exact (hne (c := 'b') (by simp) rfl).elim
  · exact (hne (c := '+') (by simp) rfl).elim
  · exact (hne (c := '-') (by simp) rfl).elim
  · rfl

/-- **An integer is read as it is written.** -/
theorem integer?_text (n : Int) : integer? (Json.Number.integer n).text = some n := by
  rw [Json.Reader.text_integer]
  split
  · show (decimal? (Nat.toDigits 10 n.natAbs)).map (fun m => -Int.ofNat m) = some n
    rw [decimal?_toDigits, Option.map_some, Int.ofNat_eq_natCast]
    congr 1
    omega
  · rw [List.nil_append, integer?_of_isDigit (Json.Reader.isDigits_toDigits n.natAbs).2,
      decimal?_toDigits, Option.map_some, Int.ofNat_eq_natCast]
    congr 1
    omega

/-! ## Entries -/

/-- No character of a key without quotes, or of an integer, is anything else on a line. -/
theorem ne_of_isBare {c d : Char} (hc : isBare c = true) (hd : isBare d = false) : c ≠ d := by
  rintro rfl
  rw [hc] at hd
  cases hd

theorem isBare_of_mem_text {n : Int} {c : Char} (hc : c ∈ (Json.Number.integer n).text) :
    isBare c = true := by
  rw [Json.Reader.text_integer, List.mem_append] at hc
  rcases hc with hc | hc
  · split at hc
    · rw [List.mem_singleton.1 hc]
      rfl
    · cases hc
  · have hdigit := (Json.Reader.isDigits_toDigits n.natAbs).2 c hc
    simp [isBare, Char.isAlphanum, hdigit]

theorem isBlank_of_isBare {c : Char} (h : isBare c = true) : isBlank c = false := by
  simp [isBlank, ne_of_isBare h (d := ' ') rfl, ne_of_isBare h (d := '\t') rfl]

/-- A text of bare characters has no blanks in front. -/
theorem dropWhile_isBlank_append {text : List Char} (hne : text ≠ [])
    (h : ∀ c ∈ text, isBare c = true) (rest : List Char) :
    (text ++ rest).dropWhile isBlank = text ++ rest := by
  cases text with
  | nil => exact absurd rfl hne
  | cons c text =>
    exact List.dropWhile_cons_of_neg (by simp [isBlank_of_isBare (h c List.mem_cons_self)])

/-- The bare characters in front of another one are a key. -/
theorem key?_append {key : List Char} (hne : key ≠ []) (h : ∀ c ∈ key, isBare c = true) {c : Char}
    (hc : isBare c = false) (rest : List Char) :
    key? (key ++ c :: rest) = some (key, c :: rest) := by
  have hspan : (key ++ c :: rest).span isBare = (key, c :: rest) := by
    rw [List.span_eq_takeWhile_dropWhile, List.takeWhile_append_of_pos h,
      List.dropWhile_append_of_pos h, List.takeWhile_cons_of_neg (by simp [hc]),
      List.dropWhile_cons_of_neg (by simp [hc]), List.append_nil]
  obtain ⟨d, key, rfl⟩ := List.exists_cons_of_ne_nil hne
  have hd := h d List.mem_cons_self
  unfold key?
  split
  · rename_i heq
    exact absurd (List.cons.inj heq).1 (ne_of_isBare hd rfl)
  · rename_i heq
    exact absurd (List.cons.inj heq).1 (ne_of_isBare hd rfl)
  · rw [hspan]

/-- The value of an entry is all that is left of its line. -/
theorem span_text (n : Int) : (Json.Number.integer n).text.span (fun c => !isBlank c && c != '#') =
    ((Json.Number.integer n).text, []) := by
  have hall : ∀ c ∈ (Json.Number.integer n).text, (!isBlank c && c != '#') = true := by
    intro c hc
    have hbare := isBare_of_mem_text hc
    simp [isBlank_of_isBare hbare, ne_of_isBare hbare (d := '#') rfl]
  rw [List.span_eq_takeWhile_dropWhile, List.takeWhile_eq_self_iff.2 hall,
    List.dropWhile_eq_nil_iff.2 hall]

theorem text_ne_nil (n : Int) : (Json.Number.integer n).text ≠ [] := by
  obtain ⟨c, rest, htext, -⟩ := Json.Reader.exists_text_integer_eq_cons n
  rw [htext]
  exact List.cons_ne_nil c rest

variable (e : Entry)

theorem isLine_line : IsLine e.line := by
  have hbare {c : Char} (hc : isBare c = true) : c ≠ '\n' ∧ c ≠ '\r' :=
    ⟨ne_of_isBare hc rfl, ne_of_isBare hc rfl⟩
  intro c hc
  simp only [Entry.line, List.mem_append] at hc
  rcases hc with hc | hc | hc
  · exact hbare (e.isBare_of_mem c hc)
  · have hequals : ∀ c ∈ [' ', '=', ' '], c ≠ '\n' ∧ c ≠ '\r' := by
      simp only [List.forall_mem_cons]
      exact ⟨by decide, by decide, by decide, List.forall_mem_nil _⟩
    exact hequals c hc
  · exact hbare (isBare_of_mem_text hc)

theorem dropWhile_isBlank_line : e.line.dropWhile isBlank = e.line :=
  dropWhile_isBlank_append e.key_ne_nil e.isBare_of_mem _

theorem not_isRemark_line : isRemark e.line = false := by
  obtain ⟨c, key, hkey⟩ := List.exists_cons_of_ne_nil e.key_ne_nil
  have hc := e.isBare_of_mem c (hkey ▸ List.mem_cons_self)
  rw [isRemark, dropWhile_isBlank_line, Entry.line, hkey, List.cons_append]
  split
  · rename_i heq
    cases heq
  · rename_i heq
    exact absurd (List.cons.inj heq).1 (ne_of_isBare hc rfl)
  · rfl

theorem entry?_line : entry? e.line = some (e.key, e.value) := by
  have hkey : key? e.line = some (e.key.toList, ' ' :: '=' :: ' ' ::
      (Json.Number.integer e.value).text) :=
    key?_append e.key_ne_nil e.isBare_of_mem rfl _
  have hvalue : (' ' :: (Json.Number.integer e.value).text).dropWhile isBlank =
      (Json.Number.integer e.value).text := by
    have := dropWhile_isBlank_append (text_ne_nil e.value) (fun c hc => isBare_of_mem_text hc) []
    rwa [List.append_nil] at this
  have hequals (text : List Char) : (' ' :: '=' :: text).dropWhile isBlank = '=' :: text := rfl
  unfold entry?
  rw [dropWhile_isBlank_line, hkey]
  simp only [Option.bind_eq_bind, Option.bind_some, hequals, hvalue, span_text, integer?_text,
    String.ofList_toList]
  rfl

/-- **A line is the entry that it was written for.** -/
theorem withLine_line (f : Found) : withLine f e.line = f.add? e := by
  rw [withLine, not_isRemark_line, entry?_line]
  rfl

/-- The lines of entries are run as the entries. -/
theorem foldlM_withLine_map_line (f : Found) (entries : List Entry) :
    (entries.map Entry.line).foldlM withLine f = entries.foldlM Found.add? f := by
  rw [List.foldlM_map]
  simp only [withLine_line]

/-- An empty line at the end makes no difference. -/
theorem foldlM_withLine_append_nil (f : Found) (texts : List (List Char)) :
    (texts ++ [[]]).foldlM withLine f = texts.foldlM withLine f := by
  rw [List.foldlM_append]
  exact bind_pure _

/-- The text begins with the first key, and so with no mark. -/
theorem withoutMark_intercalate_line (texts : List (List Char)) :
    withoutMark (['\n'].intercalate (e.line :: texts)) = ['\n'].intercalate (e.line :: texts) := by
  obtain ⟨c, key, hkey⟩ := List.exists_cons_of_ne_nil e.key_ne_nil
  have hc := e.isBare_of_mem c (hkey ▸ List.mem_cons_self)
  rw [Json.intercalate_cons, Entry.line, hkey]
  unfold withoutMark
  split
  · rename_i heq
    exact absurd (List.cons.inj heq).1 (ne_of_isBare hc rfl)
  · rfl

end Toml

/-- The lines of a document are run as its entries. -/
theorem foldlM_withLine_toToml (entries : List Entry) (ended : Bool) :
    (Toml.lines (Toml.withoutMark (toToml entries ended).toList)).foldlM Toml.withLine {} =
      entries.foldlM Found.add? {} := by
  rw [toToml, String.toList_ofList]
  cases entries with
  | nil => cases ended <;> rfl
  | cons e entries =>
    have hlines : ∀ text ∈ (e :: entries).map Entry.line ++ (if ended then [[]] else []),
        Toml.IsLine text := by
      intro text htext
      rcases List.mem_append.1 htext with h | h
      · obtain ⟨e', -, rfl⟩ := List.mem_map.1 h
        exact Toml.isLine_line e'
      · cases ended with
        | true =>
          rw [List.mem_singleton.1 h]
          exact fun c hc => nomatch hc
        | false => cases h
    rw [List.map_cons, List.cons_append] at hlines
    rw [List.map_cons, List.cons_append, Toml.withoutMark_intercalate_line,
      Toml.lines_intercalate hlines, ← List.cons_append, ← List.map_cons,
      ← Toml.foldlM_withLine_map_line]
    cases ended with
    | true => exact Toml.foldlM_withLine_append_nil _ _
    | false => rw [if_neg Bool.false_ne_true, List.append_nil]

theorem ofToml_toToml (entries : List Entry) (ended : Bool) :
    ofToml (toToml entries ended) =
      if AreTimings entries then .ok (ofEntries entries) else .error .unparsable := by
  have hsettings := foldlM_add?_map_settings entries
  rw [ofToml, foldlM_withLine_toToml]
  cases hfold : entries.foldlM Found.add? {} <;> rw [hfold] at hsettings <;>
    split at hsettings <;> simp_all

/-! ## Members -/

/-- The text of a number is read as a duration exactly if the number stands for it. -/
theorem reads_duration_iff {n : Int} {d : Duration} :
    Reads Duration.reader d (Json.Number.integer n).text ↔ Duration.ofWritten? n = some d := by
  by_cases hn : IsWord n
  · constructor
    · intro h
      obtain ⟨m, mid, hm, hd⟩ := bind_eq_ok_iff.1 (h.run_front delimited_nil)
      cases hm.symm.trans ((reads_integer hn).run_front delimited_nil)
      exact (required_eq_ok_iff.1 hd).1
    · exact reads_wanted (reads_integer hn)
  · constructor
    · intro h
      have hreject : Rejects Duration.reader _ _ := (rejects_integer hn).bind _
      cases (h.run blank_nil delimited_nil).symm.trans (hreject.run blank_nil delimited_nil)
    · intro h
      have hrange := (ofWritten?_eq_some_iff.1 h).1
      unfold IsWord Duration.greatestWritten at *
      omega

/-- An entry as a member of an object. -/
def Entry.toMember (e : Entry) : Member :=
  Json.Layout.addsBlanks_compact.member 0 (e.key, (Json.Number.integer e.value).text)

theorem Entry.isNamed_toMember (e : Entry) : e.toMember.IsNamed :=
  Member.isNamed_of_quoted (quoted_quote e.key)

theorem Entry.name_toMember (e : Entry) : e.toMember.name = e.key :=
  Member.name_eq (quoted_quote e.key)

theorem exists_member_reads_iff {e : Entry} {f f' : Found} :
    (∃ r, member e.key f = .ok r ∧ Reads r f' e.toMember.item.text) ↔ f.add? e = some f' := by
  rw [Found.add?_eq_some_iff, member]
  cases Field.ofKey? e.key with
  | none =>
    constructor
    · rintro ⟨r, ⟨⟩, -⟩
    · rintro ⟨field, ⟨⟩, -⟩
  | some field =>
    have hvalue : IsValue e.toMember.item.text :=
      .number (Json.Reader.isNumber_text (.integer e.value))
    simp only [exists_once_reads_iff (Duration.steady hvalue), Option.some.injEq,
      exists_eq_left']
    exact and_congr_right fun _ => exists_congr fun d => and_congr_left fun _ => reads_duration_iff

/-- **The members of an object are run as its entries.** -/
theorem amounts_toMember_iff {entries : List Entry} {f f' : Found} :
    Amounts quoted member f (entries.map Entry.toMember) f' ↔
      entries.foldlM Found.add? f = some f' := by
  induction entries generalizing f with
  | nil =>
    constructor
    · rintro ⟨⟩
      rfl
    · rintro ⟨⟩
      exact .nil _
  | cons e entries ih =>
    rw [List.map_cons, amounts_cons_iff, e.name_toMember, List.foldlM_cons, Option.bind_eq_bind,
      Option.bind_eq_some_iff]
    constructor
    · rintro ⟨-, r, f₁, hr, hread, hrest⟩
      exact ⟨f₁, exists_member_reads_iff.1 ⟨r, hr, hread⟩, ih.1 hrest⟩
    · rintro ⟨f₁, hf₁, hrest⟩
      obtain ⟨r, hr, hread⟩ := exists_member_reads_iff.2 hf₁
      exact ⟨e.isNamed_toMember, r, f₁, hr, hread, ih.2 hrest⟩

theorem toOption_parse_entriesToJson (entries : List Entry) :
    (Settings.reader.parse (entriesToJson entries).compact).toOption =
      if AreTimings entries then some (ofEntries entries) else none := by
  let o := ObjectText.ofMembers (entries.map fun e => (e.key, .integer e.value))
  have hmembers : o.members = entries.map Entry.toMember := List.map_map
  have hok (s : Settings) : Settings.reader.parse o.text = .ok s ↔
      (entries.foldlM Found.add? {}).map Found.settings = some s := by
    rw [readsObject.parse_eq_ok_iff, hmembers, Option.map_eq_some_iff]
    simp only [amounts_toMember_iff, Option.some.injEq]
  rw [entriesToJson, ← ObjectText.text_ofMembers, ← foldlM_add?_map_settings]
  ext s
  rw [← hok]
  cases Settings.reader.parse o.text <;> simp [Except.toOption]

/-- **The two kinds of documents agree**, whatever their entries are, in whatever order.  They are
settings exactly if the entries are timings, each given once and in range; a timing that is not
given has its default.  Otherwise there are no settings, and of the document in lines it is said
that it is no configuration. -/
theorem documents_agree (entries : List Entry) (ended : Bool) :
    (ofToml (toToml entries ended) =
      if AreTimings entries then .ok (ofEntries entries) else .error .unparsable) ∧
    ((Settings.reader.parse (entriesToJson entries).compact).toOption =
      if AreTimings entries then some (ofEntries entries) else none) ∧
    Failure.unparsable.message = "Failed to parse gesture configuration" :=
  ⟨ofToml_toToml entries ended, toOption_parse_entriesToJson entries, rfl⟩

end PointerMotion.Settings
