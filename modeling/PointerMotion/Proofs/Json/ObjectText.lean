import Mathlib.Data.List.TakeWhile
import PointerMotion.Proofs.Json.Members

/-!
# Texts that are an object

An `ObjectText` is a whole text that is one object of the grammar, given by its members and by the
blanks that belong to none of them.  What a reader makes of it depends on what its members amount
to and on nothing else (`parse_of_amounts`, `parse_eq_ok_iff`).

Readers of objects have the same shape, `ReadsObject`: they follow the members, and in the end they
ask whether everything was found that may not be missing.  If their state has slots, what is known
of other sets of members is known of other texts.
-/

namespace PointerMotion.Json

open Reader

/-- **A text that is an object**, and nothing else apart from blanks. -/
structure ObjectText where
  lead : List Char
  members : List Member
  inner : List Char
  tail : List Char
  blank_lead : Blank lead
  blank_inner : Blank inner
  blank_tail : Blank tail
  isValue : ∀ m ∈ members, IsValue m.item.text

/-- An object of the given members, without blanks. -/
def ObjectText.ofMembers (members : List (String × Json)) : ObjectText where
  lead := []
  members := members.map fun m => Layout.addsBlanks_compact.member 0 (m.1, m.2.render .compact 1)
  inner := []
  tail := []
  blank_lead := blank_nil
  blank_inner := blank_nil
  blank_tail := blank_nil
  isValue := by
    intro m hm
    obtain ⟨m, -, rfl⟩ := List.mem_map.1 hm
    exact isValue_render Layout.addsBlanks_compact 1 m.2

/-- The text itself. -/
def ObjectText.text (o : ObjectText) : String :=
  String.ofList (o.lead ++ (braces o.inner o.members ++ o.tail))

theorem ObjectText.text_ofMembers (members : List (String × Json)) :
    (ofMembers members).text = (Json.object members).compact := by
  have hclosing (parts : List (String × List Char)) :
      Layout.compact.closing 0 true parts = [] := ite_self []
  rw [text, compact, render_object, Layout.enclose_eq_braces Layout.addsBlanks_compact, hclosing,
    List.map_map, ofMembers, List.nil_append, List.append_nil]
  rfl

namespace Reader

variable {α σ : Type}

/-- The reader follows the members of an object from the empty state on, and wants what was found
to be something in the end. -/
structure ReadsObject (r : Reader α) (member : String → σ → Except Fault (Reader σ)) (empty : σ)
    (found : σ → Option α) : Prop where
  run : ∀ text, r ('{' :: text) =
    (object member empty >>= fun s => required (found s)) ('{' :: text)
  run_append : ∀ {left}, Blank left → ∀ text, r (left ++ text) = r text
  steady : ∀ {key s r text}, member key s = .ok r → IsValue text → Steady r text

theorem readsObject_peek {f : Char → Reader α} {g : σ → Reader α}
    {member : String → σ → Except Fault (Reader σ)} {empty : σ} {found : σ → Option α}
    (hf : f '{' = object member empty >>= g) (hg : ∀ s, g s = required (found s))
    (hsteady : ∀ {key s r text}, member key s = .ok r → IsValue text → Steady r text) :
    ReadsObject (peek >>= f) member empty found where
  run text := by
    rw [bind_of_ok (peek_cons rfl text), hf, funext hg]
  run_append hleft text := peek_bind_append hleft f text
  steady := hsteady

/-- A whole text that was read ends where its value does, apart from blanks. -/
theorem parse_of_run {r : Reader α} {text : String} {a : α} {rest : List Char} (hrest : Blank rest)
    (h : r text.toList = .ok (a, rest)) : r.parse text = .ok a := by
  rw [Reader.parse, h]
  show (if rest.dropWhile isBlank = [] then _ else _) = _
  rw [if_pos (List.dropWhile_eq_nil_iff.2 hrest)]
  rfl

theorem parse_of_run_error {r : Reader α} {text : String} {e : Fault}
    (h : r text.toList = .error e) : r.parse text = .error e := by
  rw [Reader.parse, h]
  rfl

namespace ReadsObject

variable {r : Reader α} {member : String → σ → Except Fault (Reader σ)} {empty : σ}
  {found : σ → Option α} (hr : ReadsObject r member empty found)
include hr

theorem run_text (o : ObjectText) : r o.text.toList =
    (object member empty >>= fun s => required (found s)) (braces o.inner o.members ++ o.tail) := by
  rw [ObjectText.text, String.toList_ofList, hr.run_append o.blank_lead]
  exact hr.run _

/-- What members amount to is what was found. -/
theorem parse_of_amounts {o : ObjectText} {s : σ}
    (h : Amounts quoted member empty o.members s) : r.parse o.text = outcome (found s) := by
  have hrun : r o.text.toList = required (found s) o.tail :=
    (hr.run_text o).trans (bind_of_ok (objectWith_braces o.blank_inner h o.tail))
  cases hfound : found s with
  | some a =>
    rw [hfound] at hrun
    exact parse_of_run o.blank_tail hrun
  | none =>
    rw [hfound] at hrun
    exact parse_of_run_error hrun

/-- An object is read exactly if its members amount to something in which all was found. -/
theorem parse_eq_ok_iff {o : ObjectText} {a : α} :
    r.parse o.text = .ok a ↔
      ∃ s, Amounts quoted member empty o.members s ∧ found s = some a := by
  constructor
  · intro h
    cases hobject : object member empty (braces o.inner o.members ++ o.tail) with
    | error e =>
      rw [parse_of_run_error ((hr.run_text o).trans (bind_of_error hobject))] at h
      cases h
    | ok p =>
      obtain ⟨s, rest⟩ := p
      have hkeys (m : Member) (_ : m ∈ o.members) {rest rest' : List Char} {k : String}
          (hrun : quoted (m.key ++ rest) = .ok (k, rest')) (rest : List Char) :
          quoted (m.key ++ rest) = .ok (k, rest) := quoted_of_isString m.isString_key hrun rest
      obtain ⟨hs, -⟩ := (objectWith_braces_eq_ok_iff o.blank_inner hkeys
        fun m hm k s r hmember => hr.steady hmember (o.isValue m hm)).1 hobject
      exact ⟨s, hs, outcome_eq_ok_iff.1 ((hr.parse_of_amounts hs).symm.trans h)⟩
  · rintro ⟨s, hs, hfound⟩
    rw [hr.parse_of_amounts hs, hfound]
    rfl

/-- An object with a member that is refused is refused for it. -/
theorem parse_of_refused {o : ObjectText} {front back : List Member} {m : Member} {s : σ}
    {e : Fault} (hmembers : o.members = front ++ m :: back)
    (hfront : Amounts quoted member empty front s) (hnamed : m.IsNamed)
    (he : member m.name s = .error e) : r.parse o.text = .error e := by
  refine parse_of_run_error ((hr.run_text o).trans (bind_of_error ?_))
  rw [hmembers]
  exact objectWith_braces_of_refused o.blank_inner hfront hnamed he o.tail

/-! ## Other sets of members -/

variable {slots : List (Slot σ)} {lenient : Bool} (hslots : IsSlotted member slots lenient)
  {o o' : ObjectText} {a : α} (h : r.parse o.text = .ok a)
include hslots h

/-- The order of the members makes no difference. -/
theorem parse_perm (hperm : o'.members.Perm o.members) : r.parse o'.text = .ok a := by
  obtain ⟨s, hs, hfound⟩ := hr.parse_eq_ok_iff.1 h
  exact hr.parse_eq_ok_iff.2 ⟨s, hslots.amounts_perm o.isValue hs hperm, hfound⟩

variable {front back : List Member} {m : Member}

/-- One more member, which is not known, is skipped or refused. -/
theorem parse_insert (hmembers : o.members = front ++ back)
    (hmembers' : o'.members = front ++ m :: back) (hnamed : m.IsNamed)
    (hother : m.name ∉ slots.map Slot.key) :
    r.parse o'.text = if lenient then .ok a else .error .mismatch := by
  have hother : ∀ slot ∈ slots, slot.key ≠ m.name := fun slot hslot hkey =>
    hother (hkey ▸ List.mem_map_of_mem hslot)
  obtain ⟨s, hs, hfound⟩ := hr.parse_eq_ok_iff.1 h
  rw [hmembers] at hs
  cases lenient with
  | true =>
    have hvalue : IsValue m.item.text := o'.isValue m (hmembers' ▸ by simp)
    exact hr.parse_eq_ok_iff.2
      ⟨s, hmembers' ▸ hslots.amounts_insert hvalue hnamed hother rfl hs, hfound⟩
  | false =>
    obtain ⟨s', hfront, -⟩ := amounts_append_iff.1 hs
    exact hr.parse_of_refused hmembers' hfront hnamed (hslots.member_other _ hother s')

/-- A second member with a known key is refused. -/
theorem parse_repeat (hmembers : o.members = front ++ back)
    (hmembers' : o'.members = front ++ m :: back) (hnamed : m.IsNamed)
    (hknown : m.name ∈ slots.map Slot.key) (hm : ∃ m' ∈ front, m'.name = m.name) :
    r.parse o'.text = .error .mismatch := by
  obtain ⟨slot, hslot, hkey⟩ := List.mem_map.1 hknown
  obtain ⟨m', hm', hname⟩ := hm
  obtain ⟨s, hs, -⟩ := hr.parse_eq_ok_iff.1 h
  rw [hmembers] at hs
  obtain ⟨s', hfront, -⟩ := amounts_append_iff.1 hs
  have hvalues : ∀ m' ∈ front, IsValue m'.item.text := fun m' hm' =>
    o.isValue m' (hmembers ▸ List.mem_append_left _ hm')
  refine hr.parse_of_refused hmembers' hfront hnamed ?_
  rw [← hkey]
  exact hslots.member_eq_error_of_mem hvalues hfront hslot hm' (hname.trans hkey.symm)

/-- Without a known member, its slot is all that has changed. -/
theorem exists_parse_leave_out (hmembers : o.members = front ++ m :: back)
    (hmembers' : o'.members = front ++ back) (hknown : m.name ∈ slots.map Slot.key) :
    ∃ slot ∈ slots, slot.key = m.name ∧ ∃ s s', found s = some a ∧
      r.parse o'.text = outcome (found s') ∧ slot.get s' = slot.get empty ∧
        ∀ slot' ∈ slots, slot'.key ≠ slot.key → slot'.get s' = slot'.get s := by
  obtain ⟨slot, hslot, hkey⟩ := List.mem_map.1 hknown
  obtain ⟨s, hs, hfound⟩ := hr.parse_eq_ok_iff.1 h
  obtain ⟨s', hs', hself, hothers⟩ := hslots.exists_amounts_leave_out
    (fun m' hm' => o.isValue m' (hmembers ▸ hm')) (hmembers ▸ hs) hslot hkey.symm
  exact ⟨slot, hslot, hkey, s, s', hfound, hr.parse_of_amounts (hmembers' ▸ hs'), hself, hothers⟩

/-- If every slot has to be filled, no known member may be missing. -/
theorem parse_leave_out (hempty : ∀ slot ∈ slots, slot.get empty = none)
    (hfound : ∀ slot ∈ slots, ∀ s, slot.get s = none → found s = none)
    (hmembers : o.members = front ++ m :: back) (hmembers' : o'.members = front ++ back)
    (hknown : m.name ∈ slots.map Slot.key) : r.parse o'.text = .error .mismatch := by
  obtain ⟨slot, hslot, -, s, s', -, hparse, hget, -⟩ :=
    hr.exists_parse_leave_out hslots h hmembers hmembers' hknown
  rw [hparse, hfound slot hslot s' (hget.trans (hempty slot hslot))]
  rfl

end ReadsObject

end Reader
end PointerMotion.Json
