import PointerMotion.Json.Reader.Value
import PointerMotion.Proofs.Json.Reading

/-!
# What a reader can give at all

The statements about `Reads` start from a text.  The ones here start from a success: whatever the
text was, the value that a reader gave has some property.  `Gives r P` says so, and there is one
lemma for each way in which readers are put together, so a reader is followed along its definition
and nothing is said about texts.

For a loop the property is an invariant of its state, and has to be kept by one step.
-/

namespace PointerMotion.Json.Reader

variable {α β σ : Type} {P : α → Prop}

/-- Every value that the reader gives has the property. -/
def Gives (r : Reader α) (P : α → Prop) : Prop :=
  ∀ text a rest, r text = .ok (a, rest) → P a

theorem gives_pure {a : α} (h : P a) : Gives (pure a) P := by
  rintro text a' rest hrun
  cases hrun
  exact h

theorem gives_throw (e : Fault) : Gives (throw e) P := by
  rintro text a rest hrun
  cases hrun

/-- A reader gives what its last part gives, which may use what the first part gave. -/
theorem gives_bind {m : Reader β} {f : β → Reader α} {Q : β → Prop} (hm : Gives m Q)
    (hf : ∀ b, Q b → Gives (f b) P) : Gives (m >>= f) P := by
  rintro text a rest hrun
  obtain ⟨b, mid, hb, ha⟩ := bind_eq_ok_iff.1 hrun
  exact hf b (hm text b mid hb) mid a rest ha

/-- Where nothing need be known of the first part. -/
theorem gives_of_rest {m : Reader β} {f : β → Reader α} (hf : ∀ b, Gives (f b) P) :
    Gives (m >>= f) P :=
  gives_bind (Q := fun _ => True) (fun _ _ _ _ => trivial) fun b _ => hf b

theorem gives_map {r : Reader β} {f : β → α} (h : Gives r fun b => P (f b)) :
    Gives (f <$> r) P :=
  gives_bind h fun _ hb => gives_pure hb

theorem gives_required {found : Option α} (h : ∀ a ∈ found, P a) : Gives (required found) P := by
  cases found with
  | none => exact gives_throw _
  | some a => exact gives_pure (h a rfl)

theorem gives_wanted {r : Reader β} {want : β → Option α} (h : ∀ b, ∀ a ∈ want b, P a) :
    Gives (wanted r want) P :=
  gives_of_rest fun b => gives_required (h b)

/-- What is met where something else was wanted gives nothing. -/
theorem gives_unexpected : Gives (unexpected : Reader α) P := by
  refine gives_of_rest fun c => ?_
  split
  · exact gives_throw _
  · exact gives_throw _
  · exact gives_of_rest fun _ => gives_throw _

/-! ## Containers -/

theorem gives_iterate {step : σ → Reader (Option σ)} {I : σ → Prop}
    (hstep : ∀ s, I s → Gives (step s) fun o => ∀ s' ∈ o, I s') (n : Nat) {s : σ} (hs : I s) :
    Gives (iterate step n s) I := by
  induction n generalizing s with
  | zero => exact gives_throw _
  | succ n ih =>
    refine gives_bind (hstep s hs) fun o ho => ?_
    cases o with
    | none => exact gives_pure hs
    | some s' => exact ih (ho s' rfl)

/-- A loop gives a state with every invariant that its first state has and its step keeps. -/
theorem gives_loop {step : σ → Reader (Option σ)} {I : σ → Prop}
    (hstep : ∀ s, I s → Gives (step s) fun o => ∀ s' ∈ o, I s') {s : σ} (hs : I s) :
    Gives (loop step s) I :=
  fun text => gives_iterate hstep (text.length + 1) hs text

theorem gives_item {first : Bool} {r : Reader α} (h : Gives r P) : Gives (item first r) P := by
  refine gives_of_rest fun more => ?_
  split
  · exact h
  · exact gives_throw _

theorem gives_itemOr {first : Bool} {default : α} {r : Reader α} (hdefault : P default)
    (h : Gives r P) : Gives (itemOr first default r) P := by
  refine gives_of_rest fun more => ?_
  split
  · exact h
  · exact gives_pure hdefault

/-- The items of an array have every property that an item has. -/
theorem gives_items {first : Bool} {r : Reader α} (h : Gives r P) :
    Gives (items first r) fun as => ∀ a ∈ as, P a := by
  refine gives_bind (gives_loop (I := fun as => ∀ a ∈ as, P a) ?_ ?_) fun taken htaken =>
    gives_of_rest fun _ => gives_pure fun a ha => htaken a (List.mem_reverse.1 ha)
  · intro taken htaken
    refine gives_of_rest fun more => ?_
    split
    · refine gives_bind h fun a ha => gives_pure ?_
      rintro as ⟨⟩ b hb
      rcases List.mem_cons.1 hb with rfl | hb
      · exact ha
      · exact htaken b hb
    · refine gives_pure ?_
      rintro as ⟨⟩
  · intro a ha
    cases ha

theorem gives_array {r : Reader α} (h : Gives r P) :
    Gives (array r) fun as => ∀ a ∈ as, P a :=
  gives_of_rest fun _ => gives_items h

/-- An object gives a state with every invariant that each of its members keeps. -/
theorem gives_object {member : String → σ → Except Fault (Reader σ)} {I : σ → Prop}
    (hmember : ∀ key s, I s → ∀ r, member key s = .ok r → Gives r I) {s : σ} (hs : I s) :
    Gives (object member s) I := by
  refine gives_of_rest fun _ =>
    gives_bind (gives_loop (I := fun p : Bool × σ => I p.2) ?_ hs) fun p hp =>
      gives_of_rest fun _ => gives_pure hp
  rintro ⟨first, s⟩ hs
  refine gives_of_rest fun more => ?_
  split
  · refine gives_of_rest fun key => ?_
    have hlift : Gives (liftM (member key s) : Reader (Reader σ)) fun r => Gives r I := by
      rintro text r rest hrun
      cases hm : member key s with
      | error e =>
        rw [hm] at hrun
        cases hrun
      | ok _ =>
        rw [hm] at hrun
        cases hrun
        exact hmember key s hs _ hm
    refine gives_bind hlift fun r hr => gives_of_rest fun _ => gives_bind hr fun s' hs' =>
      gives_pure ?_
    rintro p ⟨⟩
    exact hs'
  · refine gives_pure ?_
    rintro p ⟨⟩

/-- A member that may occur once keeps what its value, put into the state, keeps. -/
theorem gives_once {before : Option α} {r : Reader α} {put : α → σ} {I : σ → Prop}
    (h : Gives r fun a => I (put a)) : ∀ r', once before r put = .ok r' → Gives r' I := by
  intro r' hr'
  cases before with
  | some _ => cases hr'
  | none =>
    cases hr'
    exact gives_map h

/-! ## Whole texts -/

theorem Gives.parse {r : Reader α} (h : Gives r P) {text : String} {a : α}
    (hparse : r.parse text = .ok a) : P a := by
  rw [Reader.parse] at hparse
  rcases hrun : r text.toList with e | ⟨a', rest⟩
  · rw [hrun] at hparse
    cases hparse
  · rw [hrun] at hparse
    change (if rest.dropWhile isBlank = [] then Except.ok a'
      else .error Fault.malformed) = .ok a at hparse
    split at hparse
    · cases hparse
      exact h _ _ _ hrun
    · cases hparse

end PointerMotion.Json.Reader
