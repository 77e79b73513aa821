import Mathlib.Data.List.TakeWhile
import PointerMotion.Proofs.Json.Value

/-!
# Texts that end too early

A text is *cut* if it ends before its end (`IsCut`).  What a reader makes of a text of a value that
was cut depends on whether the text has an end of its own.

* A string, an array or an object ends with its own last character, so no cut of it is a value, and
  the reader asks for more text wherever the cut is: it *starves* (`Starves`).
* A number has no such end.  The digits that are left of it are a number too, and so its reader
  either asks for more text or takes all that is there: it *exhausts* the text (`Exhausts`).  What
  it takes the digits for is another value, but one of the same sign and no greater magnitude
  (`isCut_text_integer`), so it is never refused where the whole number is not.

In a document something stands behind every number, and whoever reads that starves at once, because
nothing is left.  What a reader does with a value and what stands behind it, if they are cut
together, is one of three things, `CutOutcome`.

Loops starve if a step of them does (`Stalls`).
-/

namespace PointerMotion.Json.Reader

variable {α β σ : Type}

/-! ## Cuts -/

/-- The first text is the second one, without one character or more at its end. -/
def IsCut (cut text : List Char) : Prop := ∃ c rest, text = cut ++ c :: rest

theorem not_isCut_nil {cut : List Char} : ¬ IsCut cut [] := by
  rintro ⟨c, rest, h⟩
  simp at h

theorem isCut_nil_iff {text : List Char} : IsCut [] text ↔ text ≠ [] := by
  rw [IsCut, List.ne_nil_iff_exists_cons]
  rfl

theorem isCut_cons_iff {c : Char} {cut text : List Char} :
    IsCut cut (c :: text) ↔ cut = [] ∨ ∃ cut', cut = c :: cut' ∧ IsCut cut' text := by
  constructor
  · rintro ⟨d, rest, h⟩
    cases cut with
    | nil => exact .inl rfl
    | cons e cut =>
      obtain ⟨rfl, htext⟩ := List.cons.inj (h.trans List.cons_append)
      exact .inr ⟨cut, rfl, d, rest, htext⟩
  · rintro (rfl | ⟨cut', rfl, d, rest, rfl⟩)
    · exact ⟨c, text, rfl⟩
    · exact ⟨d, rest, rfl⟩

theorem IsCut.cons {cut text : List Char} (h : IsCut cut text) {c : Char} :
    IsCut (c :: cut) (c :: text) :=
  isCut_cons_iff.2 (.inr ⟨cut, rfl, h⟩)

/-- A cut of two texts is in the first of them, or behind it. -/
theorem IsCut.of_append {cut front back : List Char} (h : IsCut cut (front ++ back)) :
    IsCut cut front ∨ ∃ cut', cut = front ++ cut' ∧ IsCut cut' back := by
  obtain ⟨c, rest, h⟩ := h
  rcases List.append_eq_append_iff.1 h with ⟨as, hcut, hback⟩ | ⟨bs, hfront, hrest⟩
  · exact .inr ⟨as, hcut, c, rest, hback⟩
  · cases bs with
    | nil =>
      rw [List.append_nil] at hfront
      refine .inr ⟨[], ?_, c, rest, hrest.symm⟩
      rw [hfront, List.append_nil]
    | cons b bs => exact .inl ⟨b, bs, hfront⟩

theorem IsCut.blank {cut blanks : List Char} (h : IsCut cut blanks) (hb : Blank blanks) :
    Blank cut := by
  obtain ⟨c, rest, rfl⟩ := h
  exact fun d hd => hb d (List.mem_append_left _ hd)

/-- Of blanks and a text some blanks are left, and a cut of the text. -/
theorem IsCut.of_blank_append {cut blanks text : List Char} (h : IsCut cut (blanks ++ text))
    (hb : Blank blanks) (ht : text ≠ []) :
    ∃ left cut', Blank left ∧ IsCut cut' text ∧ cut = left ++ cut' := by
  rcases h.of_append with hcut | ⟨cut', rfl, hcut'⟩
  · exact ⟨cut, [], hcut.blank hb, isCut_nil_iff.2 ht, (List.append_nil cut).symm⟩
  · exact ⟨blanks, cut', hb, hcut', rfl⟩

/-- What follows a value delimits it, wherever it is cut. -/
theorem IsCut.delimited {cut text : List Char} (h : IsCut cut text) (ht : Delimited text) :
    Delimited cut := by
  obtain ⟨c, rest, rfl⟩ := h
  cases cut with
  | nil => exact delimited_nil
  | cons d cut => exact ht

/-! ## Readers of cut texts -/

/-- Behind blanks there is nothing to look at. -/
theorem peek_of_blank {blanks : List Char} (hb : Blank blanks) :
    peek blanks = .error .truncated := by
  have h : blanks.dropWhile isBlank = [] := List.dropWhile_eq_nil_iff.2 hb
  simp only [peek, h]

/-- **Of a text that is cut anywhere, the reader asks for more.** -/
structure Starves (r : Reader α) (text : List Char) : Prop where
  run : ∀ {blanks cut : List Char}, Blank blanks → IsCut cut text →
    r (blanks ++ cut) = .error .truncated

/-- On a text the reader asks for more, or takes all of it. -/
inductive Exhausted (r : Reader α) (text : List Char) : Prop where
  | truncated (h : r text = .error .truncated)
  | taken {a : α} (h : r text = .ok (a, []))

/-- **Of a text that is cut anywhere, the reader asks for more, or takes all that is there.** -/
structure Exhausts (r : Reader α) (text : List Char) : Prop where
  run : ∀ {blanks cut : List Char}, Blank blanks → IsCut cut text → Exhausted r (blanks ++ cut)

theorem Starves.exhausts {r : Reader α} {text : List Char} (h : Starves r text) :
    Exhausts r text where
  run hb hcut := .truncated (h.run hb hcut)

theorem Starves.bind {r : Reader α} {text : List Char} (h : Starves r text) (f : α → Reader β) :
    Starves (r >>= f) text where
  run hb hcut := bind_of_error (h.run hb hcut)

/-- The value taken may be changed. -/
theorem Exhausts.map {r : Reader α} {text : List Char} (h : Exhausts r text) (f : α → β) :
    Exhausts (f <$> r) text where
  run hb hcut := by
    cases h.run hb hcut with
    | truncated h => exact .truncated (map_of_error f h)
    | taken h => exact .taken (map_of_ok f h)

/-- A whole text that is cut anywhere is no document. -/
theorem Starves.parse {r : Reader α} {text cut : List Char} (h : Starves r text)
    (hcut : IsCut cut text) : r.parse (String.ofList cut) = .error .truncated := by
  have hrun : r (String.ofList cut).toList = .error .truncated := by
    rw [String.toList_ofList]
    exact h.run blank_nil hcut
  rw [Reader.parse, hrun]
  rfl

/-- A reader that first looks at the next character starves if it does after the character. -/
theorem starves_peek {f : Char → Reader α} {c : Char} {text : List Char} (hc : isBlank c = false)
    (h : ∀ cut, IsCut cut text → f c (c :: cut) = .error .truncated) :
    Starves (peek >>= f) (c :: text) where
  run := by
    intro blanks cut hb hcut
    rcases isCut_cons_iff.1 hcut with rfl | ⟨cut', rfl, hcut'⟩
    · rw [List.append_nil]
      exact bind_of_error (peek_of_blank hb)
    · rw [bind_of_ok (peek_blank hb hc cut')]
      exact h cut' hcut'

/-- **What a reader makes of a value and what stands behind it**, if they are cut together: it asks
for more, or nothing is left, or it has read the value and the cut is behind it. -/
inductive CutOutcome (r : Reader α) (text : List Char) (a : α) (tail : List Char) : Prop where
  | truncated (h : r text = .error .truncated)
  | taken {a' : α} (h : r text = .ok (a', []))
  | whole {rest : List Char} (hrest : IsCut rest tail) (hlt : rest.length < text.length)
      (h : r text = .ok (a, rest))

theorem Exhausts.cutOutcome {r : Reader α} {a : α} {text tail : List Char} (h : Exhausts r text)
    (hr : Reads r a text) (ht : Delimited tail) {blanks cut : List Char} (hb : Blank blanks)
    (hcut : IsCut cut (text ++ tail)) : CutOutcome r (blanks ++ cut) a tail := by
  rcases hcut.of_append with hcut | ⟨rest, rfl, hrest⟩
  · cases h.run hb hcut with
    | truncated h => exact .truncated h
    | taken h => exact .taken h
  · obtain ⟨c, cs, rfl, -⟩ := hr.begins
    refine .whole hrest ?_ (hr.run hb (hrest.delimited ht))
    simp only [List.length_append, List.length_cons]
    omega

/-- Something else may be taken before the value. -/
theorem CutOutcome.of_run {r r' : Reader α} {a : α} {text mid tail : List Char}
    (h : CutOutcome r mid a tail) (hrun : r' text = r mid) (hle : mid.length ≤ text.length) :
    CutOutcome r' text a tail := by
  cases h with
  | truncated h => exact .truncated (hrun.trans h)
  | taken h => exact .taken (hrun.trans h)
  | whole hrest hlt h => exact .whole hrest (hlt.trans_le hle) (hrun.trans h)

/-- Whoever reads on starves, if it does on what stands behind the value. -/
theorem CutOutcome.bind {r : Reader α} {f : α → Reader β} {a : α} {text tail : List Char}
    (h : CutOutcome r text a tail) (ht : tail ≠ [])
    (hf : ∀ a rest, IsCut rest tail → f a rest = .error .truncated) :
    (r >>= f) text = .error .truncated := by
  cases h with
  | truncated h => exact bind_of_error h
  | @taken a' h =>
    rw [bind_of_ok h]
    exact hf a' [] (isCut_nil_iff.2 ht)
  | @whole rest hrest _ h =>
    rw [bind_of_ok h]
    exact hf a rest hrest

/-! ## Repetition -/

/-- A step that takes one value stalls if it does on what stands behind the value, and on nothing
at all. -/
theorem CutOutcome.stalls {step : σ → Reader (Option σ)} {r : Reader α} {put : α → σ} {s : σ}
    {a : α} {text mid tail : List Char} (h : CutOutcome r mid a tail)
    (hstep : step s text = (r >>= fun a => pure (some (put a))) mid)
    (hle : mid.length ≤ text.length) (hnil : ∀ s, step s [] = .error .truncated)
    (hrest : ∀ rest, IsCut rest tail → Stalls step .truncated (put a) rest) :
    Stalls step .truncated s text := by
  cases h with
  | truncated h => exact .now (hstep.trans (bind_of_error h))
  | @taken a' h =>
    have hnext := hstep.trans (bind_of_ok h)
    have hne : text ≠ [] := by
      rintro rfl
      cases (hnil s).symm.trans hnext
    exact .next hnext (List.length_pos_of_ne_nil hne) (.now (hnil (put a')))
  | @whole rest hcut hlt h =>
    exact .next (hstep.trans (bind_of_ok h)) (hlt.trans_le hle) (hrest rest hcut)

/-! ## Literals and strings -/

theorem literal_cut {text cut : List Char} (h : IsCut cut text) :
    literal text cut = .error .truncated := by
  induction text generalizing cut with
  | nil => exact absurd h not_isCut_nil
  | cons c text ih =>
    rcases isCut_cons_iff.1 h with rfl | ⟨cut, rfl, hcut⟩
    · rfl
    · rw [literal, bind_of_ok (m := take) rfl, if_pos rfl]
      exact ih hcut

/-- Fewer than four digits are no unit. -/
theorem codeUnit_cut {a b : Nat} (ha : a < 16) {cut : List Char}
    (h : IsCut cut ['0', '0', hexDigit a, hexDigit b]) : codeUnit cut = .error .truncated := by
  have hsize : ∀ a, a < 16 → (hexDigit a).utf8Size = 1 := by decide
  simp only [isCut_cons_iff, not_isCut_nil, and_false, exists_false, or_false] at h
  rcases h with rfl | ⟨_, rfl, rfl | ⟨_, rfl, rfl | ⟨_, rfl, rfl⟩⟩⟩
  · rfl
  · rfl
  · rfl
  · have hshort : codeUnit ['0', '0', hexDigit a] =
        if 1 + 1 + (hexDigit a).utf8Size < 4 then .error .truncated else .error .malformed := by
      rw [codeUnit]
      split
      · rename_i h
        cases h
      · rfl
    rw [hshort, hsize a ha]
    rfl

/-- What stands for a character, cut anywhere. -/
theorem character_cut (c : Char) {cut : List Char} (h : IsCut cut (escaped c)) :
    character cut = .error .truncated := by
  unfold escaped at h
  split at h
  iterate 7
    simp only [isCut_cons_iff, not_isCut_nil, and_false, exists_false, or_false] at h
    rcases h with rfl | ⟨_, rfl, rfl⟩ <;> rfl
  split at h
  · rename_i hcontrol
    rcases isCut_cons_iff.1 h with rfl | ⟨_, rfl, hletter⟩
    · rfl
    · rcases isCut_cons_iff.1 hletter with rfl | ⟨_, rfl, hdigits⟩
      · rfl
      · have hunit : (unicode >>= fun c => pure (some c)) _ = .error .truncated :=
          bind_of_error (bind_of_error (codeUnit_cut (by omega) hdigits))
        exact hunit
  · simp only [isCut_cons_iff, not_isCut_nil, and_false, exists_false, or_false] at h
    rw [h]
    rfl

/-- The characters of a string are collected up to the cut. -/
theorem stalls_character (cs taken : List Char) {cut : List Char}
    (h : IsCut cut (cs.flatMap escaped ++ ['"'])) :
    Stalls (fun taken => return (← character).map (· :: taken)) .truncated taken cut := by
  induction cs generalizing taken cut with
  | nil =>
    rcases isCut_cons_iff.1 h with rfl | ⟨_, rfl, hnil⟩
    · exact .now rfl
    · exact absurd hnil not_isCut_nil
  | cons c cs ih =>
    rw [List.flatMap_cons, List.append_assoc] at h
    rcases h.of_append with hcut | ⟨cut', rfl, hcut'⟩
    · exact .now (bind_of_error (character_cut c hcut))
    · refine .next (bind_of_ok (character_escaped c cut')) ?_ (ih (c :: taken) hcut')
      have hpos := List.length_pos_iff.2 (escaped_ne_nil c)
      rw [List.length_append]
      omega

/-- **A string that is cut anywhere is not finished.** -/
theorem quoted_cut {s : String} {cut : List Char} (h : IsCut cut (quote s)) :
    quoted cut = .error .truncated := by
  rcases isCut_cons_iff.1 h with rfl | ⟨cut', rfl, hcut'⟩
  · rfl
  · rw [quoted, bind_of_ok (m := take) rfl]
    exact bind_of_error (loop_of_stalls (stalls_character s.toList [] hcut'))

theorem starves_string (s : String) : Starves string (quote s) :=
  starves_peek rfl fun _ hcut => quoted_cut hcut.cons

/-! ## Integers -/

/-- The first digits of a number are the digits of a smaller number. -/
theorem isCut_toDigits {n : Nat} {cut : List Char} (h : IsCut cut (Nat.toDigits 10 n)) :
    cut = [] ∨ ∃ m, cut = Nat.toDigits 10 m ∧ m ≤ n ∧ (0 < n → 0 < m) := by
  induction n using Nat.strongRecOn generalizing cut with
  | ind n ih =>
    rcases Nat.lt_or_ge n 10 with hlt | hge
    · rw [Nat.toDigits_of_lt_base hlt] at h
      rcases isCut_cons_iff.1 h with hnil | ⟨_, rfl, hcut⟩
      · exact .inl hnil
      · exact absurd hcut not_isCut_nil
    · rw [Nat.toDigits_of_base_le (by decide) hge] at h
      rcases h.of_append with hcut | ⟨cut', rfl, hcut'⟩
      · rcases ih (n / 10) (by omega) hcut with hnil | ⟨m, hm, hle, hpos⟩
        · exact .inl hnil
        · exact .inr ⟨m, hm, by omega, fun _ => hpos (by omega)⟩
      · rcases isCut_cons_iff.1 hcut' with rfl | ⟨_, rfl, hcut⟩
        · exact .inr ⟨n / 10, List.append_nil _, by omega, fun _ => by omega⟩
        · exact absurd hcut not_isCut_nil

/-- **What is left of an integer** is nothing, a sign, or an integer of the same sign and no greater
magnitude. -/
theorem isCut_text_integer {n : Int} {cut : List Char} (h : IsCut cut (Number.integer n).text) :
    cut = [] ∨ cut = ['-'] ∨
      ∃ m, cut = (Number.integer m).text ∧ m.natAbs ≤ n.natAbs ∧ (m < 0 ↔ n < 0) := by
  rw [text_integer] at h
  by_cases hn : n < 0
  · rw [if_pos hn] at h
    rcases isCut_cons_iff.1 h with hnil | ⟨cut', rfl, hcut'⟩
    · exact .inl hnil
    · rcases isCut_toDigits hcut' with rfl | ⟨m, rfl, hle, hpos⟩
      · exact .inr (.inl rfl)
      · have hm := hpos (by omega)
        refine .inr (.inr ⟨-m, ?_, by omega, by omega⟩)
        rw [text_integer, if_pos (by omega), Int.natAbs_neg, Int.natAbs_natCast]
        rfl
  · rw [if_neg hn] at h
    rcases isCut_toDigits h with rfl | ⟨m, rfl, hle, hpos⟩
    · exact .inl rfl
    · refine .inr (.inr ⟨m, ?_, by omega, by omega⟩)
      rw [text_integer, if_neg (by omega), Int.natAbs_natCast]
      rfl

theorem IsWord.of_le {m n : Int} (hn : IsWord n) (hle : m.natAbs ≤ n.natAbs)
    (hsign : m < 0 ↔ n < 0) : IsWord m := by
  obtain ⟨hlower, hupper⟩ := hn
  constructor <;> omega

/-- A reader of an integer exhausts it, if it is one of all those that may be left of it. -/
theorem exhausts_integer_text {r : Reader α} {n : Int}
    (hempty : ∀ blanks, Blank blanks → r blanks = .error .truncated)
    (hsign : ∀ blanks, Blank blanks → r (blanks ++ ['-']) = .error .truncated)
    (hreads : ∀ m : Int, m.natAbs ≤ n.natAbs → (m < 0 ↔ n < 0) →
      ∃ a, Reads r a (Number.integer m).text) : Exhausts r (Number.integer n).text where
  run := by
    intro blanks cut hb hcut
    rcases isCut_text_integer hcut with rfl | rfl | ⟨m, rfl, hle, hm⟩
    · rw [List.append_nil]
      exact .truncated (hempty blanks hb)
    · exact .truncated (hsign blanks hb)
    · obtain ⟨a, ha⟩ := hreads m hle hm
      have hrun := ha.run hb delimited_nil
      rw [List.append_nil] at hrun
      exact .taken hrun

/-- **An integer that is cut is wanted if all those that may be left of it are.** -/
theorem exhausts_wanted_integer {n : Int} (hn : IsWord n) {want : Int → Option α}
    (h : ∀ m : Int, m.natAbs ≤ n.natAbs → (m < 0 ↔ n < 0) → ∃ a, want m = some a) :
    Exhausts (wanted integer want) (Number.integer n).text := by
  refine exhausts_integer_text (fun blanks hb => ?_) (fun blanks hb => ?_) fun m hle hm => ?_
  · exact bind_of_error (bind_of_error (peek_of_blank hb))
  · refine bind_of_error ?_
    rw [integer, bind_of_ok (peek_blank hb rfl [])]
    rfl
  · obtain ⟨a, ha⟩ := h m hle hm
    exact ⟨a, reads_wanted (reads_integer (hn.of_le hle hm)) ha⟩

end PointerMotion.Json.Reader
