import PointerMotion.Proofs.Json.Parts
import PointerMotion.Proofs.Json.Scalar

/-!
# Numbers and strings of the grammar

Whether a number or a string of the grammar is read, and as what, does not depend on the text
behind it.

* Of a number this holds as long as the text behind it does not go on like a number.  The parts of
  a number are found in any case (`exists_parts_eq`); what they amount to, if anything, is decided
  without looking at the text again.
* A string ends with its own last quote.  Its characters cannot be taken stroke by stroke, because
  an escape may be half of a pair, and then it depends on the next stroke whether there is a
  character at all.  So `character_stroke` says which strokes are left, and the text behind the
  string is never looked at.

To find the end of either of them is possible for every text of the grammar
(`skipQuoted_of_isString`, `exists_parts_eq`).
-/

namespace PointerMotion.Json.Reader

/-! ## Numbers -/

/-- The next character, if there is one, is not of the kind. -/
def Stops (kind : Char → Bool) (rest : List Char) : Prop := ∀ c ∈ rest.head?, kind c = false

theorem stops_cons {kind : Char → Bool} {c : Char} (hc : kind c = false) (rest : List Char) :
    Stops kind (c :: rest) := by
  intro d hd
  rw [List.head?_cons, Option.mem_some] at hd
  exact hd ▸ hc

/-- A text stops a kind of characters if its front does, or if that is empty and its back does. -/
theorem Stops.append {kind : Char → Bool} {front back : List Char}
    (hfront : ∀ c cs, front = c :: cs → kind c = false) (hback : Stops kind back) :
    Stops kind (front ++ back) := by
  cases front with
  | nil => exact hback
  | cons c cs => exact stops_cons (hfront c cs rfl) _

/-- A fraction part is found, if the text behind it does not go on like one. -/
theorem exists_fractionPart_eq {fraction : List Char} (h : IsFractionPart fraction) :
    ∃ o, ∀ {rest : List Char}, Stops Char.isDigit rest → Stops (· == '.') rest →
      fractionPart (fraction ++ rest) = .ok (o, rest) := by
  rcases h with rfl | ⟨ds, ⟨hne, hdigits⟩, rfl⟩
  · refine ⟨none, fun _ hpoint => ?_⟩
    rw [List.nil_append, fractionPart, bind_of_ok (take?_of_head? hpoint)]
    rfl
  · refine ⟨some ds, fun hdigit _ => ?_⟩
    refine (bind_of_ok (m := take? _) (a := some '.') rfl).trans ?_
    exact bind_of_ok (digits_append hne hdigits hdigit)

/-- An exponent is found, if the text behind it does not go on like one. -/
theorem exists_exponentPart_eq {exponent : List Char} (h : IsExponentPart exponent) :
    ∃ o, ∀ {rest : List Char}, Stops Char.isDigit rest →
      Stops (fun c => c == 'e' || c == 'E') rest →
        exponentPart (exponent ++ rest) = .ok (o, rest) := by
  rcases h with rfl | ⟨letter, sign, ds, hletter, hsign, ⟨hne, hdigits⟩, rfl⟩
  · refine ⟨none, fun _ hletter => ?_⟩
    rw [List.nil_append, exponentPart, bind_of_ok (take?_of_head? hletter)]
    rfl
  · have htake (rest : List Char) : take? (fun c => c == 'e' || c == 'E') (letter :: rest) =
        .ok (some letter, rest) := by
      rcases hletter with rfl | rfl <;> rfl
    obtain ⟨o, ho⟩ : ∃ o, ∀ rest, take? (fun c => c == '+' || c == '-') (sign ++ (ds ++ rest)) =
        .ok (o, ds ++ rest) := by
      rcases hsign with rfl | rfl | rfl
      · refine ⟨none, fun rest => take?_of_head? ?_⟩
        cases ds with
        | nil => exact absurd rfl hne
        | cons d ds =>
          refine stops_cons ?_ _
          have hd := hdigits d List.mem_cons_self
          rw [← Bool.not_eq_true, Bool.or_eq_true, beq_iff_eq, beq_iff_eq]
          rintro (rfl | rfl) <;> exact absurd hd (by decide)
      · exact ⟨some '+', fun rest => rfl⟩
      · exact ⟨some '-', fun rest => rfl⟩
    refine ⟨some (signed (o == some '-') (digitsValue ds)), fun {rest} hdigit _ => ?_⟩
    rw [List.cons_append, List.append_assoc, exponentPart, bind_of_ok (htake _)]
    refine (bind_of_ok (ho rest)).trans ?_
    exact bind_of_ok (digits_append hne hdigits hdigit)

/-- A sign is taken, or there is none. -/
theorem exists_take?_sign_eq {sign whole : List Char} (hsign : sign = [] ∨ sign = ['-'])
    (hwhole : IsWholePart whole) :
    ∃ o, ∀ rest, take? (· == '-') (sign ++ (whole ++ rest)) = .ok (o, whole ++ rest) := by
  rcases hsign with rfl | rfl
  · refine ⟨none, fun rest => take?_of_head? ?_⟩
    rcases hwhole with rfl | ⟨⟨hne, hdigits⟩, -⟩
    · exact stops_cons rfl rest
    · cases whole with
      | nil => exact absurd rfl hne
      | cons d ds =>
        refine stops_cons ?_ _
        have hd := hdigits d List.mem_cons_self
        rw [beq_eq_false_iff_ne]
        rintro rfl
        exact absurd hd (by decide)
  · exact ⟨some '-', fun rest => rfl⟩

/-- What follows a value does not go on like a number. -/
theorem Delimited.stops {rest : List Char} (h : Delimited rest) :
    Stops Char.isDigit rest ∧ Stops (· == '.') rest ∧
      Stops (fun c => c == 'e' || c == 'E') rest := by
  refine ⟨fun c hc => (isDigit_of_isDelimiter (h c hc)).1, fun c hc => ?_, fun c hc => ?_⟩
  · simpa using (isDigit_of_isDelimiter (h c hc)).2.1
  · simpa using (isDigit_of_isDelimiter (h c hc)).2.2

/-- **The parts of a number are found**, and the text behind it is left. -/
theorem exists_parts_eq {text : List Char} (h : IsNumber text) :
    ∃ p, ∀ {rest : List Char}, Delimited rest → parts (text ++ rest) = .ok (p, rest) := by
  rw [isNumber_iff] at h
  obtain ⟨sign, whole, fraction, exponent, hsign, hwhole, hfraction, hexponent, rfl⟩ := h
  obtain ⟨o, ho⟩ := exists_take?_sign_eq hsign hwhole
  obtain ⟨places, hplaces⟩ := exists_fractionPart_eq hfraction
  obtain ⟨power, hpower⟩ := exists_exponentPart_eq hexponent
  refine ⟨⟨o.isSome, whole, places, power⟩, fun {rest} hrest => ?_⟩
  obtain ⟨hdigit, hpoint, hletter⟩ := hrest.stops
  have hdigit' : Stops Char.isDigit (exponent ++ rest) := by
    refine hdigit.append fun c cs hc => ?_
    rcases hexponent with rfl | ⟨letter, _, _, rfl | rfl, -, -, rfl⟩ <;> cases hc <;> rfl
  have hpoint' : Stops (· == '.') (exponent ++ rest) := by
    refine hpoint.append fun c cs hc => ?_
    rcases hexponent with rfl | ⟨letter, _, _, rfl | rfl, -, -, rfl⟩ <;> cases hc <;> rfl
  have hdigit'' : Stops Char.isDigit (fraction ++ (exponent ++ rest)) := by
    refine hdigit'.append fun c cs hc => ?_
    rcases hfraction with rfl | ⟨_, -, rfl⟩ <;> cases hc
    rfl
  simp only [List.append_assoc]
  rw [parts, bind_of_ok (ho _), bind_of_ok (wholePart_append hwhole hdigit''),
    bind_of_ok (hplaces hdigit' hpoint'), bind_of_ok (hpower hdigit hletter)]
  rfl

theorem decimal_eq (negative : Bool) (significand : Nat) (exponent : Int) :
    (∃ n, ∀ text, decimal negative significand exponent text = .ok (n, text)) ∨
      ∃ e, ∀ text, decimal negative significand exponent text = .error e := by
  unfold decimal
  split
  · exact .inr ⟨.malformed, fun text => rfl⟩
  · exact .inl ⟨_, fun text => rfl⟩

/-- What the parts of a number amount to is decided without the text. -/
theorem ofParts_eq (p : Parts) :
    (∃ n, ∀ text, ofParts p text = .ok (n, text)) ∨ ∃ e, ∀ text, ofParts p text = .error e := by
  obtain ⟨negative, whole, fraction, exponent⟩ := p
  cases fraction with
  | some _ => exact decimal_eq _ _ _
  | none =>
    cases exponent with
    | some _ => exact decimal_eq _ _ _
    | none =>
      simp only [ofParts]
      split
      · exact .inl ⟨_, fun text => rfl⟩
      · exact decimal_eq _ _ _

/-- **A number is read, or it is not**, whatever follows it. -/
theorem number_eq {text : List Char} (h : IsNumber text) :
    (∃ n, ∀ {rest}, Delimited rest → number (text ++ rest) = .ok (n, rest)) ∨
      ∃ e, ∀ {rest}, Delimited rest → number (text ++ rest) = .error e := by
  obtain ⟨p, hp⟩ := exists_parts_eq h
  rcases ofParts_eq p with ⟨n, hn⟩ | ⟨e, he⟩
  · refine .inl ⟨n, fun hrest => ?_⟩
    rw [number, bind_of_ok (hp hrest), hn]
  · refine .inr ⟨e, fun hrest => ?_⟩
    rw [number, bind_of_ok (hp hrest), he]

/-! ## Strings -/

/-- Four hexadecimal digits are a unit. -/
theorem exists_codeUnit_eq {a b c d : Char} (h : ∀ x ∈ [a, b, c, d], (hexValue? x).isSome) :
    ∃ n, ∀ rest, codeUnit (a :: b :: c :: d :: rest) = .ok (n, rest) := by
  obtain ⟨n, hn⟩ : ∃ n, hexDigitsValue? [a, b, c, d] = some n := by
    simp only [List.forall_mem_cons, Option.isSome_iff_exists] at h
    obtain ⟨⟨i, hi⟩, ⟨j, hj⟩, ⟨k, hk⟩, ⟨l, hl⟩, -⟩ := h
    simp only [hexDigitsValue?, List.foldlM_cons, List.foldlM_nil, hi, hj, hk, hl]
    exact ⟨_, rfl⟩
  refine ⟨n, fun rest => ?_⟩
  simp only [codeUnit, List.take_succ_cons, List.take_zero, List.drop_succ_cons, List.drop_zero, hn]

theorem exists_character_short {c : Char} (hc : c ∈ ['"', '\\', '/', 'b', 'f', 'n', 'r', 't']) :
    ∃ c', ∀ text, character ('\\' :: c :: text) = .ok (some c', text) := by
  simp only [List.mem_cons, List.not_mem_nil, or_false] at hc
  rcases hc with rfl | rfl | rfl | rfl | rfl | rfl | rfl | rfl <;> exact ⟨_, fun text => rfl⟩

/-- A unit that is no half of a pair is a character. -/
theorem unicode_eq {n : Nat} {digits text : List Char} (hn : codeUnit digits = .ok (n, text)) :
    unicode digits =
      if isTrailing n then .error .malformed
      else if isLeading n then
        (literal ['\\', 'u'] >>= fun _ => codeUnit >>= fun m =>
          if isTrailing m then pure (.ofNat (0x10000 + (n - 0xD800) * 0x400 + (m - 0xDC00)))
          else throw .malformed) text
      else .ok (.ofNat n, text) := by
  rw [unicode, bind_of_ok hn]
  split
  · rfl
  · split <;> rfl

/-- Where an escape with digits has to follow, the next stroke is one. -/
theorem exists_stroke_of_literal {strokes : List (List Char)} (hs : ∀ s ∈ strokes, IsStroke s)
    {rest rest' : List Char}
    (hrun : literal ['\\', 'u'] (strokes.flatten ++ '"' :: rest) = .ok ((), rest')) :
    ∃ a b c d strokes', (∀ x ∈ [a, b, c, d], (hexValue? x).isSome) ∧
      strokes = ['\\', 'u', a, b, c, d] :: strokes' := by
  cases strokes with
  | nil => cases hrun
  | cons stroke strokes =>
    cases hs stroke List.mem_cons_self with
    | @plain c _ hbackslash _ =>
      have h : literal ['\\', 'u'] ([c] ++ (strokes.flatten ++ '"' :: rest)) =
          .error .malformed := by
        rw [literal, List.singleton_append, bind_of_ok (m := take) rfl, if_neg hbackslash]
        rfl
      rw [List.flatten_cons, List.append_assoc, h] at hrun
      cases hrun
    | @short c hc =>
      have hc : c ≠ 'u' := by
        rintro rfl
        exact absurd hc (by decide)
      have h : literal ['\\', 'u'] (['\\', c] ++ (strokes.flatten ++ '"' :: rest)) =
          .error .malformed := by
        refine (bind_of_ok (m := take) rfl).trans ?_
        rw [if_pos rfl, literal]
        refine (bind_of_ok (m := take) rfl).trans ?_
        rw [if_neg hc]
        rfl
      rw [List.flatten_cons, List.append_assoc, h] at hrun
      cases hrun
    | @unicode a b c d h => exact ⟨a, b, c, d, strokes, h, rfl⟩

/-- The character of an escape, or of two that are a pair. -/
theorem unicode_stroke {a b c d : Char} (h : ∀ x ∈ [a, b, c, d], (hexValue? x).isSome)
    {strokes : List (List Char)} (hs : ∀ s ∈ strokes, IsStroke s) {rest rest' : List Char}
    {c' : Char}
    (hrun : unicode (a :: b :: c :: d :: (strokes.flatten ++ '"' :: rest)) = .ok (c', rest')) :
    ∃ strokes' : List (List Char), strokes' <:+ strokes ∧
      rest' = strokes'.flatten ++ '"' :: rest ∧
        ∀ rest, unicode (a :: b :: c :: d :: (strokes.flatten ++ '"' :: rest)) =
          .ok (c', strokes'.flatten ++ '"' :: rest) := by
  obtain ⟨n, hn⟩ := exists_codeUnit_eq h
  rw [unicode_eq (hn _)] at hrun
  by_cases htrailing : isTrailing n = true
  · rw [if_pos htrailing] at hrun
    cases hrun
  · rw [if_neg htrailing] at hrun
    by_cases hleading : isLeading n = true
    · rw [if_pos hleading] at hrun
      obtain ⟨⟨⟩, mid, hliteral, hsecond⟩ := bind_eq_ok_iff.1 hrun
      obtain ⟨a', b', c', d', strokes', h', rfl⟩ := exists_stroke_of_literal hs hliteral
      cases hliteral
      obtain ⟨m, hm⟩ := exists_codeUnit_eq h'
      obtain ⟨m', mid', hm', hpair⟩ := bind_eq_ok_iff.1 hsecond
      cases (hm _).symm.trans hm'
      refine ⟨strokes', List.suffix_cons _ _, ?_⟩
      by_cases htrailing' : isTrailing m = true
      · rw [if_pos htrailing'] at hpair
        obtain ⟨rfl, rfl⟩ := Prod.mk.inj (Except.ok.inj hpair)
        refine ⟨rfl, fun rest => ?_⟩
        rw [unicode_eq (hn _), if_neg htrailing, if_pos hleading]
        have hescape : literal ['\\', 'u'] ('\\' :: 'u' :: a' :: b' :: c' :: d' ::
            (strokes'.flatten ++ '"' :: rest)) =
            .ok ((), a' :: b' :: c' :: d' :: (strokes'.flatten ++ '"' :: rest)) := rfl
        refine (bind_of_ok hescape).trans ?_
        rw [bind_of_ok (hm _), if_pos htrailing']
        rfl
      · rw [if_neg htrailing'] at hpair
        cases hpair
    · rw [if_neg hleading] at hrun
      cases hrun
      refine ⟨strokes, List.suffix_refl _, rfl, fun rest => ?_⟩
      rw [unicode_eq (hn _), if_neg htrailing, if_neg hleading]

/-- **One character of a string** is what one stroke stands for, or two.  The strokes behind it and
the text behind the string are left. -/
theorem character_stroke {stroke : List Char} (h : IsStroke stroke) {strokes : List (List Char)}
    (hs : ∀ s ∈ strokes, IsStroke s) {rest rest' : List Char} {o : Option Char}
    (hrun : character (stroke ++ (strokes.flatten ++ '"' :: rest)) = .ok (o, rest')) :
    ∃ (c : Char) (strokes' : List (List Char)), strokes' <:+ strokes ∧
      rest' = strokes'.flatten ++ '"' :: rest ∧
      ∀ rest, character (stroke ++ (strokes.flatten ++ '"' :: rest)) =
        .ok (some c, strokes'.flatten ++ '"' :: rest) := by
  cases h with
  | @plain c hquote hbackslash hcontrol =>
    have hc (text : List Char) : character (c :: text) = .ok (some c, text) := by
      rw [character, bind_of_ok (m := take) rfl]
      split
      · exact absurd rfl hquote
      · exact absurd rfl hbackslash
      · rw [if_neg (Nat.not_lt.2 hcontrol)]
        rfl
    rw [List.singleton_append, hc] at hrun
    cases hrun
    exact ⟨c, strokes, List.suffix_refl _, rfl, fun rest => hc _⟩
  | @short c hc =>
    obtain ⟨c', hc'⟩ := exists_character_short hc
    rw [List.cons_append, List.singleton_append, hc'] at hrun
    cases hrun
    exact ⟨c', strokes, List.suffix_refl _, rfl, fun rest => hc' _⟩
  | @unicode a b c d hdigits =>
    have hc (text : List Char) : character (['\\', 'u', a, b, c, d] ++ text) =
        (unicode >>= fun c => pure (some c)) (a :: b :: c :: d :: text) := rfl
    rw [hc] at hrun
    obtain ⟨c', _, hunicode, hpure⟩ := bind_eq_ok_iff.1 hrun
    cases hpure
    obtain ⟨strokes', hsuffix, hrest, h⟩ := unicode_stroke hdigits hs hunicode
    exact ⟨c', strokes', hsuffix, hrest, fun rest => (hc _).trans (bind_of_ok (h rest))⟩

/-- The characters of a string that were collected once are always collected. -/
theorem runs_character_of_iterate {n : Nat} {strokes : List (List Char)}
    (hs : ∀ s ∈ strokes, IsStroke s) {taken taken' rest rest' : List Char}
    (hrun : iterate (fun taken => return (← character).map (· :: taken)) n taken
      (strokes.flatten ++ '"' :: rest) = .ok (taken', rest')) (rest : List Char) :
    Runs (fun taken => return (← character).map (· :: taken)) taken
      (strokes.flatten ++ '"' :: rest) taken' rest := by
  induction n generalizing strokes taken with
  | zero => cases hrun
  | succ n ih =>
    cases strokes with
    | nil =>
      cases hrun
      exact .done rfl
    | cons stroke strokes =>
      obtain ⟨hstroke, hs⟩ := List.forall_mem_cons.1 hs
      rw [List.flatten_cons, List.append_assoc] at hrun ⊢
      obtain ⟨o, mid, hstep, hrun⟩ := bind_eq_ok_iff.1 hrun
      obtain ⟨o', mid', hcharacter, hpure⟩ := bind_eq_ok_iff.1 hstep
      cases hpure
      obtain ⟨c, strokes', ⟨before, rfl⟩, rfl, hall⟩ := character_stroke hstroke hs hcharacter
      cases hcharacter.symm.trans (hall _)
      have hs' : ∀ s ∈ strokes', IsStroke s := fun s h => hs s (List.mem_append_right _ h)
      refine .next (bind_of_ok (hall rest)) ?_ (ih hs' hrun)
      have hpos : 0 < stroke.length := by
        cases hstroke <;> exact Nat.zero_lt_succ _
      simp only [List.flatten_append, List.length_append]
      omega

/-- **A string that was read once is always read**, whatever follows it. -/
theorem quoted_of_isString {text : List Char} (h : IsString text) {rest rest' : List Char}
    {s : String} (hrun : quoted (text ++ rest) = .ok (s, rest')) (rest : List Char) :
    quoted (text ++ rest) = .ok (s, rest) := by
  obtain ⟨strokes, hs, rfl⟩ := isString_iff.1 h
  simp only [List.cons_append, List.append_assoc] at hrun ⊢
  obtain ⟨c, mid, htake, hbody⟩ := bind_eq_ok_iff.1 hrun
  cases htake
  obtain ⟨characters, _, hloop, hpure⟩ := bind_eq_ok_iff.1 hbody
  cases hpure
  exact (bind_of_ok (m := take) rfl).trans
    (bind_of_ok (loop_of_runs (runs_character_of_iterate hs hloop rest)))

/-- One step of finding the end of a string. -/
def skipStroke : Unit → Reader (Option Unit) := fun () => do
  match ← take with
  | '"' => return none
  | '\\' =>
    match ← take with
    | 'u' => discard codeUnit; return some ()
    | c => if (escape? c).isSome then return some () else throw .malformed
  | c => if c.toNat < 0x20 then throw .malformed else return some ()

/-- A stroke is skipped, whatever it stands for. -/
theorem skipStroke_stroke {stroke : List Char} (h : IsStroke stroke) (text : List Char) :
    skipStroke () (stroke ++ text) = .ok (some (), text) := by
  cases h with
  | plain hquote hbackslash hcontrol =>
    refine (bind_of_ok (m := take) rfl).trans ?_
    split
    · exact absurd rfl hquote
    · exact absurd rfl hbackslash
    · rw [if_neg (Nat.not_lt.2 hcontrol)]
      rfl
  | short hc =>
    simp only [List.mem_cons, List.not_mem_nil, or_false] at hc
    rcases hc with rfl | rfl | rfl | rfl | rfl | rfl | rfl | rfl <;> rfl
  | @unicode a b c d hdigits =>
    obtain ⟨n, hn⟩ := exists_codeUnit_eq hdigits
    have hunit : discard codeUnit (a :: b :: c :: d :: text) = .ok ((), text) :=
      map_of_ok (fun _ => ()) (hn text)
    change (discard codeUnit >>= fun _ => pure (some ())) (a :: b :: c :: d :: text) = _
    exact bind_of_ok hunit

theorem runs_skipStroke {strokes : List (List Char)} (hs : ∀ s ∈ strokes, IsStroke s)
    (rest : List Char) : Runs skipStroke () (strokes.flatten ++ '"' :: rest) () rest := by
  induction strokes with
  | nil => exact .done rfl
  | cons stroke strokes ih =>
    obtain ⟨hstroke, hs⟩ := List.forall_mem_cons.1 hs
    rw [List.flatten_cons, List.append_assoc]
    refine .next (skipStroke_stroke hstroke _) ?_ (ih hs)
    have hpos : 0 < stroke.length := by
      cases hstroke <;> exact Nat.zero_lt_succ _
    simp only [List.length_append]
    omega

/-- **The end of a string is found**, whatever it stands for. -/
theorem skipQuoted_of_isString {text : List Char} (h : IsString text) (rest : List Char) :
    skipQuoted (text ++ rest) = .ok ((), rest) := by
  obtain ⟨strokes, hs, rfl⟩ := isString_iff.1 h
  simp only [List.cons_append, List.append_assoc]
  exact (bind_of_ok (discard_take_cons _ _)).trans (loop_of_runs (runs_skipStroke hs rest))

end PointerMotion.Json.Reader
