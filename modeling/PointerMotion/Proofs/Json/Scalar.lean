import Mathlib.Algebra.Group.Nat.Defs
import Mathlib.Data.List.Basic
import Mathlib.Data.List.TakeDrop
import PointerMotion.Json.Printer
import PointerMotion.Json.Reader.Number
import PointerMotion.Json.Reader.Quoted
import PointerMotion.Proofs.Json.Grammar

/-!
# Integers and strings are read as they are written

The two scalars that documents of this library are made of.  What is written of them is in the
grammar, numbers with an exponent included (`isNumber_text`, `isString_quote`).

* `number_text`: the decimal text of an integer of 64 bits, with or without a sign, is read as
  that integer.  What is needed of the digits is that there is one, that the first is zero only
  if it is the only one, and that together they have the value they are the digits of.
* `quoted_quote`: what stands between quotes is read as the string it was written for, whatever
  its characters are.  The statement rests on one character: what stands for it is read as it,
  and nothing of what follows is looked at.
-/

namespace PointerMotion.Json.Reader

/-! ## Digits -/

/-- The digits at the front of a text are taken as far as they reach. -/
theorem digits_append {ds rest : List Char} (hne : ds ≠ []) (hds : ∀ c ∈ ds, c.isDigit = true)
    (hrest : ∀ c ∈ rest.head?, c.isDigit = false) : digits (ds ++ rest) = .ok (ds, rest) := by
  have hspan : (ds ++ rest).span Char.isDigit = (ds, rest) := by
    rw [List.span_eq_takeWhile_dropWhile, List.takeWhile_append_of_pos hds,
      List.dropWhile_append_of_pos hds]
    cases rest with
    | nil => simp
    | cons c rest =>
      have hc : c.isDigit = false := hrest c rfl
      rw [List.takeWhile_cons_of_neg (by simp [hc]), List.dropWhile_cons_of_neg (by simp [hc]),
        List.append_nil]
  rw [digits, hspan]
  cases ds with
  | nil => exact absurd rfl hne
  | cons d ds => rfl

/-- No positive number begins with a zero. -/
theorem head?_toDigits_ne_zero {n : Nat} (hn : 0 < n) :
    (Nat.toDigits 10 n).head? ≠ some '0' := by
  induction n using Nat.strongRecOn with
  | ind n ih =>
    rcases Nat.lt_or_ge n 10 with h | h
    · rw [Nat.toDigits_of_lt_base h]
      have : ∀ m, m < 10 → 0 < m → [Nat.digitChar m].head? ≠ some '0' := by decide
      exact this n h hn
    · rw [Nat.toDigits_of_base_le (by decide) h,
        List.head?_append_of_ne_nil _ Nat.toDigits_ne_nil]
      exact ih (n / 10) (by omega) (by omega)

theorem isDigits_toDigits (n : Nat) : IsDigits (Nat.toDigits 10 n) :=
  ⟨Nat.toDigits_ne_nil, fun _ hc => Nat.isDigit_of_mem_toDigits (by decide) (by decide) hc⟩

/-- A number has no superfluous zero in front, so its digits are a whole part. -/
theorem isWholePart_toDigits (n : Nat) : IsWholePart (Nat.toDigits 10 n) := by
  rcases Nat.eq_zero_or_pos n with rfl | hn
  · exact .inl (Nat.toDigits_zero 10)
  · exact .inr ⟨isDigits_toDigits n, head?_toDigits_ne_zero hn⟩

theorem wholePart_append {whole rest : List Char} (h : IsWholePart whole)
    (hrest : ∀ c ∈ rest.head?, c.isDigit = false) :
    wholePart (whole ++ rest) = .ok (whole, rest) := by
  rcases h with rfl | ⟨⟨hne, hdigits⟩, hzero⟩
  · have hdigits : ∀ c ∈ ['0'], c.isDigit = true := List.forall_mem_singleton.2 rfl
    rw [wholePart, bind_of_ok (digits_append (List.cons_ne_nil _ _) hdigits hrest)]
    rfl
  · rw [wholePart, bind_of_ok (digits_append hne hdigits hrest)]
    split
    · exact absurd rfl hzero
    · rfl

theorem sub_zero_lt_ten {c : Char} (h : c.isDigit = true) : c.toNat - '0'.toNat < 10 := by
  simp only [Char.isDigit, Bool.and_eq_true, decide_eq_true_eq] at h
  have h9 : c.toNat ≤ 57 := h.2
  have h0 : '0'.toNat = 48 := rfl
  omega

/-- The value of digits is at least the value of those before them. -/
theorem le_ofDigitChars (ds : List Char) (m : Nat) : m ≤ Nat.ofDigitChars 10 ds m := by
  induction ds generalizing m with
  | nil => exact Nat.le_refl m
  | cons d ds ih =>
    rw [Nat.ofDigitChars_cons]
    refine Nat.le_trans ?_ (ih _)
    omega

theorem extend_cons_of_lt {d : Char} {ds : List Char} {m : Nat}
    (h : 10 * m + (d.toNat - '0'.toNat) < wordLimit) :
    extend m (d :: ds) = extend (10 * m + (d.toNat - '0'.toNat)) ds := if_pos h

theorem extend_cons_of_le {d : Char} {ds : List Char} {m : Nat}
    (h : wordLimit ≤ 10 * m + (d.toNat - '0'.toNat)) :
    extend m (d :: ds) = (m, ds.length + 1) := if_neg (Nat.not_lt.2 h)

/-- As long as the value of the digits fits in a word, none is dropped. -/
theorem extend_eq {ds : List Char} {m : Nat} (h : Nat.ofDigitChars 10 ds m < wordLimit) :
    extend m ds = (Nat.ofDigitChars 10 ds m, 0) := by
  induction ds generalizing m with
  | nil => rfl
  | cons d ds ih =>
    rw [Nat.ofDigitChars_cons] at h ⊢
    have hlt : 10 * m + (d.toNat - '0'.toNat) < wordLimit :=
      Nat.lt_of_le_of_lt (le_ofDigitChars ds _) h
    rw [extend_cons_of_lt hlt]
    exact ih h

/-- No digit is dropped exactly if the value of the digits fits in a word. -/
theorem extend_snd_eq_zero_iff {ds : List Char} {m : Nat} (hm : m < wordLimit) :
    (extend m ds).2 = 0 ↔ Nat.ofDigitChars 10 ds m < wordLimit := by
  induction ds generalizing m with
  | nil => exact iff_of_true rfl hm
  | cons d ds ih =>
    rw [Nat.ofDigitChars_cons]
    rcases Nat.lt_or_ge (10 * m + (d.toNat - '0'.toNat)) wordLimit with h | h
    · rw [extend_cons_of_lt h]
      exact ih h
    · rw [extend_cons_of_le h]
      exact iff_of_false (Nat.succ_ne_zero _)
        (Nat.not_lt.2 (Nat.le_trans h (le_ofDigitChars ds _)))

/-- The digits that follow add less than one to the number before them. -/
theorem ofDigitChars_mem {ds : List Char} (h : ∀ c ∈ ds, c.isDigit = true) (m : Nat) :
    m * 10 ^ ds.length ≤ Nat.ofDigitChars 10 ds m ∧
      Nat.ofDigitChars 10 ds m < (m + 1) * 10 ^ ds.length := by
  induction ds generalizing m with
  | nil => simp
  | cons d ds ih =>
    obtain ⟨hd, hds⟩ := List.forall_mem_cons.1 h
    obtain ⟨hlo, hhi⟩ := ih hds (10 * m + (d.toNat - '0'.toNat))
    have hdigit := sub_zero_lt_ten hd
    rw [Nat.ofDigitChars_cons, List.length_cons, Nat.pow_succ']
    constructor
    · refine Nat.le_trans ?_ hlo
      rw [← Nat.mul_assoc]
      exact Nat.mul_le_mul_right _ (by omega)
    · refine Nat.lt_of_lt_of_le hhi ?_
      rw [← Nat.mul_assoc]
      exact Nat.mul_le_mul_right _ (by omega)

/-- The number is the digits that fit, and then as many digits as do not. -/
theorem extend_mem {ds : List Char} (h : ∀ c ∈ ds, c.isDigit = true) (m : Nat) :
    (extend m ds).1 * 10 ^ (extend m ds).2 ≤ Nat.ofDigitChars 10 ds m ∧
      Nat.ofDigitChars 10 ds m < ((extend m ds).1 + 1) * 10 ^ (extend m ds).2 := by
  induction ds generalizing m with
  | nil => exact ofDigitChars_mem h m
  | cons d ds ih =>
    rcases Nat.lt_or_ge (10 * m + (d.toNat - '0'.toNat)) wordLimit with hlt | hle
    · rw [extend_cons_of_lt hlt, Nat.ofDigitChars_cons]
      exact ih (List.forall_mem_cons.1 h).2 _
    · rw [extend_cons_of_le hle]
      exact ofDigitChars_mem h m

theorem extend_fst_lt {m : Nat} (hm : m < wordLimit) (ds : List Char) :
    (extend m ds).1 < wordLimit := by
  induction ds generalizing m with
  | nil => exact hm
  | cons d ds ih =>
    rcases Nat.lt_or_ge (10 * m + (d.toNat - '0'.toNat)) wordLimit with hlt | hle
    · rw [extend_cons_of_lt hlt]
      exact ih hlt
    · rw [extend_cons_of_le hle]
      exact hm

/-- Digits are dropped only if the number before them is as great as a word, but for one digit. -/
theorem wordLimit_le_of_extend {ds : List Char} (h : ∀ c ∈ ds, c.isDigit = true) {m : Nat}
    (hdropped : (extend m ds).2 ≠ 0) : wordLimit ≤ 10 * (extend m ds).1 + 9 := by
  induction ds generalizing m with
  | nil => exact absurd rfl hdropped
  | cons d ds ih =>
    obtain ⟨hd, hds⟩ := List.forall_mem_cons.1 h
    rcases Nat.lt_or_ge (10 * m + (d.toNat - '0'.toNat)) wordLimit with hlt | hle
    · rw [extend_cons_of_lt hlt] at hdropped ⊢
      exact ih hds hdropped
    · rw [extend_cons_of_le hle]
      have hdigit := sub_zero_lt_ten hd
      show wordLimit ≤ 10 * m + 9
      omega

/-! ## Integers -/

/-- The text of an integer is the digits of its magnitude, after a sign if it is negative. -/
theorem text_integer (n : Int) :
    (Number.integer n).text =
      (if n < 0 then ['-'] else []) ++ Nat.toDigits 10 n.natAbs := by
  cases n with
  | ofNat n =>
    have h : ¬ Int.ofNat n < 0 := Int.not_lt.2 (Int.natCast_nonneg n)
    rw [if_neg h]
    exact Nat.toList_repr
  | negSucc n =>
    rw [if_pos (Int.negSucc_lt_zero n)]
    show ("-" ++ Nat.repr (n + 1)).toList = _
    rw [String.toList_append, Nat.toList_repr]
    rfl

/-- The integers that a document holds. -/
def IsWord (n : Int) : Prop := -9223372036854775808 ≤ n ∧ n < 18446744073709551616

theorem isDigit_of_isDelimiter {c : Char} (h : isDelimiter c = true) :
    c.isDigit = false ∧ c ≠ '.' ∧ c ≠ 'e' ∧ c ≠ 'E' := by
  simp only [isDelimiter, isBlank, Bool.or_eq_true, beq_iff_eq] at h
  rcases h with (((((rfl | rfl) | rfl) | rfl) | rfl) | rfl) | rfl <;> decide

theorem take?_of_head? {kind : Char → Bool} {rest : List Char}
    (h : ∀ c ∈ rest.head?, kind c = false) : take? kind rest = .ok (none, rest) := by
  cases rest with
  | nil => rfl
  | cons c rest =>
    have hc : kind c = false := h c rfl
    simp [take?, hc]

theorem fractionPart_delimited {rest : List Char} (h : Delimited rest) :
    fractionPart rest = .ok (none, rest) := by
  have htake : take? (· == '.') rest = .ok (none, rest) :=
    take?_of_head? fun c hc => by simpa using (isDigit_of_isDelimiter (h c hc)).2.1
  rw [fractionPart, bind_of_ok htake]
  rfl

theorem exponentPart_delimited {rest : List Char} (h : Delimited rest) :
    exponentPart rest = .ok (none, rest) := by
  have htake : take? (fun c => c == 'e' || c == 'E') rest = .ok (none, rest) :=
    take?_of_head? fun c hc => by
      have := (isDigit_of_isDelimiter (h c hc)).2.2
      simpa using this
  rw [exponentPart, bind_of_ok htake]
  rfl

/-- The sign is taken from the front of an integer, and from no other place. -/
theorem take?_sign (n : Int) (rest : List Char) :
    take? (· == '-') ((if n < 0 then ['-'] else []) ++ (Nat.toDigits 10 n.natAbs ++ rest)) =
      .ok (if n < 0 then some '-' else none, Nat.toDigits 10 n.natAbs ++ rest) := by
  split
  · rfl
  · refine take?_of_head? fun c hc => ?_
    rw [List.nil_append, List.head?_append_of_ne_nil _ Nat.toDigits_ne_nil] at hc
    have hdigit := (isDigits_toDigits n.natAbs).2 c (List.mem_of_mem_head? hc)
    rw [beq_eq_false_iff_ne]
    rintro rfl
    exact absurd hdigit (by decide)

/-- The parts of an integer. -/
def integerParts (n : Int) : Parts := ⟨decide (n < 0), Nat.toDigits 10 n.natAbs, none, none⟩

theorem parts_text (n : Int) {rest : List Char} (hr : Delimited rest) :
    parts ((Number.integer n).text ++ rest) = .ok (integerParts n, rest) := by
  rw [text_integer, List.append_assoc, parts, bind_of_ok (take?_sign n rest),
    bind_of_ok (wholePart_append (isWholePart_toDigits n.natAbs)
      fun c hc => (isDigit_of_isDelimiter (hr c hc)).1),
    bind_of_ok (fractionPart_delimited hr), bind_of_ok (exponentPart_delimited hr), integerParts]
  split <;> simp [*]

theorem extend_toDigits {n : Nat} (h : n < wordLimit) :
    extend 0 (Nat.toDigits 10 n) = (n, 0) := by
  have hvalue := Nat.ofDigitChars_ten_toDigits (n := n)
  rw [extend_eq (hvalue.symm ▸ h), hvalue]

/-- The integers of a document are those whose digits fit in a word, with their sign. -/
theorem isWord_iff {n : Int} : IsWord n ↔
    (extend 0 (Nat.toDigits 10 n.natAbs)).2 = 0 ∧
      IsInteger (decide (n < 0)) (extend 0 (Nat.toDigits 10 n.natAbs)).1 := by
  rw [extend_snd_eq_zero_iff (by decide), Nat.ofDigitChars_ten_toDigits]
  constructor
  · rintro ⟨hlo, hhi⟩
    have hlt : n.natAbs < wordLimit := by
      unfold wordLimit
      omega
    refine ⟨hlt, ?_⟩
    rw [extend_toDigits hlt]
    unfold IsInteger wordLimit
    split <;> rename_i hn <;> simp only [decide_eq_true_eq] at hn <;> omega
  · rintro ⟨hlt, hn⟩
    rw [extend_toDigits hlt] at hn
    unfold IsInteger wordLimit at hn
    unfold wordLimit at hlt
    split at hn <;> rename_i hsign <;> simp only [decide_eq_true_eq] at hsign <;>
      exact ⟨by omega, by omega⟩

/-- **An integer is read as it is written.** -/
theorem number_text {n : Int} (hn : IsWord n) {rest : List Char} (hr : Delimited rest) :
    number ((Number.integer n).text ++ rest) = .ok (.integer n, rest) := by
  obtain ⟨hdropped, hinteger⟩ := isWord_iff.1 hn
  have hlt : n.natAbs < wordLimit := by
    rwa [extend_snd_eq_zero_iff (by decide), Nat.ofDigitChars_ten_toDigits] at hdropped
  rw [extend_toDigits hlt] at hinteger
  rw [number, bind_of_ok (parts_text n hr), integerParts, ofParts]
  simp only [extend_toDigits hlt, hinteger, and_self, if_true, signed_natAbs, pure_run]

/-- Where the digits of an integer do not fit, it counts as a decimal. -/
theorem number_text_of_not_isWord {n : Int} (hn : ¬ IsWord n) {rest : List Char}
    (hr : Delimited rest) : number ((Number.integer n).text ++ rest) =
      decimal (decide (n < 0)) (extend 0 (Nat.toDigits 10 n.natAbs)).1
        (extend 0 (Nat.toDigits 10 n.natAbs)).2 rest := by
  rw [isWord_iff] at hn
  rw [number, bind_of_ok (parts_text n hr), integerParts, ofParts]
  simp only [if_neg hn]

theorem sign_cases (p : Prop) [Decidable p] :
    (if p then ['-'] else []) = [] ∨ (if p then ['-'] else []) = ['-'] := by
  split
  · exact .inr rfl
  · exact .inl rfl

/-- The text of a number is in the grammar. -/
theorem isNumber_text (n : Number) : IsNumber n.text := by
  cases n with
  | integer n =>
    have h := IsNumber.ofParts (sign_cases (n < 0)) (isWholePart_toDigits n.natAbs) (.inl rfl)
      (.inl rfl)
    rwa [List.append_nil, List.append_nil, ← text_integer] at h
  | decimal negative significand exponent =>
    have hexponent : IsExponentPart ('e' :: (toString exponent).toList) := by
      refine .inr ⟨'e', if exponent < 0 then ['-'] else [], Nat.toDigits 10 exponent.natAbs,
        .inl rfl, ?_, isDigits_toDigits exponent.natAbs, ?_⟩
      · exact (sign_cases (exponent < 0)).imp_right .inr
      rw [← text_integer]
      rfl
    have h := IsNumber.ofParts (sign_cases (negative = true)) (isWholePart_toDigits significand)
      (.inl rfl) hexponent
    rw [List.nil_append, ← List.append_assoc, ← Nat.toList_repr] at h
    exact h

/-! ## Strings -/

/-- Two hexadecimal digits after two zeros are the unit with the number they are the digits of. -/
theorem codeUnit_hexDigits {a b : Nat} (ha : a < 16) (hb : b < 16) (rest : List Char) :
    codeUnit ('0' :: '0' :: hexDigit a :: hexDigit b :: rest) = .ok (16 * a + b, rest) := by
  have hvalue : ∀ a, a < 16 → ∀ b, b < 16 →
      hexDigitsValue? ['0', '0', hexDigit a, hexDigit b] = some (16 * a + b) := by decide
  simp only [codeUnit, List.take_succ_cons, List.take_zero, List.drop_succ_cons, List.drop_zero,
    hvalue a ha b hb]

/-- An escape of a control character is no half of a pair. -/
theorem unicode_control {c : Char} (hc : c.toNat < 0x20) (rest : List Char) :
    unicode ('0' :: '0' :: hexDigit (c.toNat / 16) :: hexDigit (c.toNat % 16) :: rest) =
      .ok (c, rest) := by
  have hunit := codeUnit_hexDigits (a := c.toNat / 16) (b := c.toNat % 16) (by omega) (by omega)
    rest
  rw [Nat.div_add_mod] at hunit
  have hleading : isLeading c.toNat = false := by simp [isLeading]; omega
  have htrailing : isTrailing c.toNat = false := by simp [isTrailing]; omega
  rw [unicode, bind_of_ok hunit]
  simp [hleading, htrailing, Char.ofNat_toNat]

/-- **What stands for a character is read as it.** -/
theorem character_escaped (c : Char) (rest : List Char) :
    character (escaped c ++ rest) = .ok (some c, rest) := by
  unfold escaped
  split
  iterate 7 rfl
  rename_i hquote hbackslash _ _ _ _ _
  split
  · rename_i hcontrol
    exact map_of_ok some (unicode_control hcontrol rest)
  · rename_i hcontrol
    rw [character, List.cons_append, bind_of_ok (m := take) rfl]
    split
    · exact absurd rfl hquote
    · exact absurd rfl hbackslash
    · rw [if_neg hcontrol]
      rfl

theorem isStroke_escaped (c : Char) : IsStroke (escaped c) := by
  unfold escaped
  split
  iterate 7 exact .short (by decide)
  rename_i hquote hbackslash _ _ _ _ _
  split
  · have hdigit : ∀ a, a < 16 → (hexValue? (hexDigit a)).isSome := by decide
    refine .unicode ?_
    simp only [List.forall_mem_cons]
    exact ⟨rfl, rfl, hdigit _ (by omega), hdigit _ (by omega), List.forall_mem_nil _⟩
  · exact .plain hquote hbackslash (Nat.le_of_not_lt ‹_›)

/-- The text of a string is in the grammar. -/
theorem isString_quote (s : String) : IsString (quote s) := by
  refine isString_iff.2 ⟨s.toList.map escaped, ?_, by rw [quote, List.flatMap_def]; rfl⟩
  intro stroke hstroke
  obtain ⟨c, -, rfl⟩ := List.mem_map.1 hstroke
  exact isStroke_escaped c

theorem escaped_ne_nil (c : Char) : escaped c ≠ [] := by
  unfold escaped
  split
  iterate 7 exact List.cons_ne_nil _ _
  split <;> exact List.cons_ne_nil _ _

/-- The characters of a string are collected one by one, up to the quote. -/
theorem runs_character (cs taken rest : List Char) :
    Runs (fun taken => return (← character).map (· :: taken)) taken
      (cs.flatMap escaped ++ '"' :: rest) (cs.reverse ++ taken) rest := by
  induction cs generalizing taken with
  | nil => exact .done rfl
  | cons c cs ih =>
    rw [List.flatMap_cons, List.append_assoc, List.reverse_cons, List.append_assoc]
    refine .next (bind_of_ok (character_escaped c _)) ?_ (ih (c :: taken))
    have := List.length_pos_iff.2 (escaped_ne_nil c)
    simp only [List.length_append, List.length_cons]
    omega

/-- **A string is read as it is written**, and ends at its own last quote. -/
theorem quoted_quote (s : String) (rest : List Char) :
    quoted (quote s ++ rest) = .ok (s, rest) := by
  have hloop := loop_of_runs (runs_character s.toList [] rest)
  have hquote : quote s ++ rest = '"' :: (s.toList.flatMap escaped ++ '"' :: rest) := by
    simp [quote]
  rw [hquote, quoted, bind_of_ok (m := take) rfl, bind_of_ok hloop, List.append_nil,
    List.reverse_reverse, String.ofList_toList]
  rfl

end PointerMotion.Json.Reader
