import Mathlib.Data.List.Nodup
import PointerMotion.Proofs.Json.Whole

/-!
# What a set of members amounts to

`Amounts` follows the members of an object in their order, because a reader does.  Most readers of
objects do not depend on the order, though: each of the members that they know fills one *slot* of
the state, once, and the slots have nothing to do with each other.  `IsSlotted` says this of what a
reader does with a member, and two statements follow by induction over the members.

* If members amount to a state, then the members with the key of a slot fill it (`Fills`): there is
  one of them at most, and its value is what the slot holds.
* If the members can fill each slot, they amount to a state.

`Fills` looks at nothing but the members with one key, so it does not change with the order of the
members, nor with members of other keys.  A state is determined by its slots, and so it does not
change either.
-/

namespace PointerMotion.Json

open Reader

/-- The string that the key of a member is read as. -/
def Member.name (m : Member) : String :=
  match quoted m.key with
  | .ok (name, _) => name
  | .error _ => ""

/-- The key of a member is read as some string. -/
def Member.IsNamed (m : Member) : Prop := ∀ rest, quoted (m.key ++ rest) = .ok (m.name, rest)

theorem Member.name_eq {m : Member} {name : String}
    (h : ∀ rest, quoted (m.key ++ rest) = .ok (name, rest)) : m.name = name := by
  have hkey := h []
  rw [List.append_nil] at hkey
  rw [Member.name, hkey]

theorem Member.isNamed_of_quoted {m : Member} {name : String}
    (h : ∀ rest, quoted (m.key ++ rest) = .ok (name, rest)) : m.IsNamed := by
  rw [Member.IsNamed, Member.name_eq h]
  exact h

namespace Reader

variable {α σ : Type}

theorem Reads.unique {r : Reader α} {a b : α} {text : List Char} (ha : Reads r a text)
    (hb : Reads r b text) : a = b := by
  have h := (ha.run_front delimited_nil).symm.trans (hb.run_front delimited_nil)
  cases h
  rfl

/-! ## Members one after the other -/

section

variable {member : String → σ → Except Fault (Reader σ)} {s s' : σ}

theorem amounts_cons_iff {m : Member} {members : List Member} :
    Amounts quoted member s (m :: members) s' ↔
      m.IsNamed ∧ ∃ r s₁, member m.name s = .ok r ∧ Reads r s₁ m.item.text ∧
        Amounts quoted member s₁ members s' := by
  constructor
  · rintro (_ | ⟨hkey, hr, h, hrest⟩)
    obtain rfl := Member.name_eq hkey
    exact ⟨hkey, _, _, hr, h, hrest⟩
  · rintro ⟨hnamed, r, s₁, hr, h, hrest⟩
    exact .cons hnamed hr h hrest

theorem amounts_append_iff {front back : List Member} :
    Amounts quoted member s (front ++ back) s' ↔
      ∃ s₁, Amounts quoted member s front s₁ ∧ Amounts quoted member s₁ back s' := by
  induction front generalizing s with
  | nil =>
    constructor
    · exact fun h => ⟨s, .nil s, h⟩
    · rintro ⟨_, ⟨⟩, h⟩
      exact h
  | cons m front ih =>
    constructor
    · intro h
      obtain ⟨hnamed, r, s₁, hr, hread, hrest⟩ := amounts_cons_iff.1 h
      obtain ⟨s₂, hfront, hback⟩ := ih.1 hrest
      exact ⟨s₂, .cons hnamed hr hread hfront, hback⟩
    · rintro ⟨s₂, hfront, hback⟩
      obtain ⟨hnamed, r, s₁, hr, hread, hrest⟩ := amounts_cons_iff.1 hfront
      exact .cons hnamed hr hread (ih.2 ⟨s₂, hrest, hback⟩)

theorem Amounts.isNamed {members : List Member} (h : Amounts quoted member s members s') :
    ∀ m ∈ members, m.IsNamed := by
  induction h with
  | nil => exact fun m hm => nomatch hm
  | cons hkey _ _ _ ih => exact List.forall_mem_cons.2 ⟨Member.isNamed_of_quoted hkey, ih⟩

end

/-! ## Members with one key -/

/-- **What the members with a key make of a slot**: if there are none, the slot is as before; if
there is one, the slot was empty, and holds its value now. -/
def Fills (r : Reader α) (key : String) (before : Option α) (members : List Member)
    (after : Option α) : Prop :=
  match members.filter (·.name == key) with
  | [] => after = before
  | [m] => before = none ∧ ∃ a, Reads r a m.item.text ∧ after = some a
  | _ => False

section

variable {r : Reader α} {key : String} {before after : Option α} {m : Member}
  {members : List Member}

theorem fills_nil : Fills r key before [] after ↔ after = before := Iff.rfl

theorem fills_cons_of_ne (h : m.name ≠ key) :
    Fills r key before (m :: members) after ↔ Fills r key before members after := by
  rw [Fills, List.filter_cons_of_neg (by simpa using h), ← Fills]

theorem fills_cons_self (h : m.name = key) :
    Fills r key before (m :: members) after ↔
      before = none ∧ ∃ a, Reads r a m.item.text ∧ Fills r key (some a) members after := by
  rw [Fills, List.filter_cons_of_pos (by simpa using h)]
  unfold Fills
  cases members.filter (·.name == key) with
  | nil => exact Iff.rfl
  | cons m' others => cases others <;> simp

/-- The order of the members makes no difference. -/
theorem Fills.perm (h : Fills r key before members after) {members' : List Member}
    (hperm : members'.Perm members) : Fills r key before members' after := by
  have hfilter := hperm.filter (·.name == key)
  unfold Fills at h ⊢
  generalize members.filter (·.name == key) = ms at h hfilter
  match ms, h with
  | [], h =>
    rw [hfilter.eq_nil]
    exact h
  | [m], h =>
    rw [List.perm_singleton.1 hfilter]
    exact h

theorem Fills.unique {after' : Option α} (h : Fills r key before members after)
    (h' : Fills r key before members after') : after = after' := by
  unfold Fills at h h'
  generalize members.filter (·.name == key) = ms at h h'
  match ms, h, h' with
  | [], h, h' => exact h.trans h'.symm
  | [m], ⟨_, a, ha, hafter⟩, ⟨_, a', ha', hafter'⟩ =>
    rw [hafter, hafter', ha.unique ha']

/-- Nothing is left to fill once there was a member with the key. -/
theorem Fills.exists_eq_some (h : Fills r key before members after) (hm : m ∈ members)
    (hname : m.name = key) : ∃ a, after = some a := by
  have hmem : m ∈ members.filter (·.name == key) :=
    List.mem_filter.2 ⟨hm, by simpa using hname⟩
  unfold Fills at h
  generalize members.filter (·.name == key) = ms at h hmem
  match ms, h with
  | [], _ => cases hmem
  | [m], ⟨_, a, _, hafter⟩ => exact ⟨a, hafter⟩

/-- Where the only member with the key is left out, the slot is as before. -/
theorem Fills.leave_out {front back : List Member}
    (h : Fills r key before (front ++ m :: back) after) (hname : m.name = key) :
    Fills r key before (front ++ back) before := by
  have hperm : (m :: (front ++ back)).Perm (front ++ m :: back) := List.perm_middle.symm
  obtain ⟨-, a, -, hfills⟩ := (fills_cons_self hname).1 (h.perm hperm)
  unfold Fills at hfills ⊢
  generalize (front ++ back).filter (·.name == key) = ms at hfills
  match ms, hfills with
  | [], _ => rfl
  | [m], ⟨h, _⟩ => cases h

end

/-! ## Slots -/

/-- A part of a state that one member of an object fills. -/
structure Slot (σ : Type) where
  Value : Type
  key : String
  reader : Reader Value
  get : σ → Option Value
  put : σ → Value → σ

/-- A known member fills its slot, once; other members are skipped or refused.  The slots have
nothing to do with each other, and are all that there is in a state. -/
structure IsSlotted (member : String → σ → Except Fault (Reader σ)) (slots : List (Slot σ))
    (lenient : Bool) : Prop where
  member_key : ∀ slot ∈ slots, ∀ s, member slot.key s = once (slot.get s) slot.reader (slot.put s)
  member_other : ∀ key, (∀ slot ∈ slots, slot.key ≠ key) → ∀ s,
    member key s = if lenient then .ok (skip *> pure s) else .error .mismatch
  nodup_keys : (slots.map Slot.key).Nodup
  get_put : ∀ slot ∈ slots, ∀ s a, slot.get (slot.put s a) = some a
  get_put_of_ne : ∀ slot ∈ slots, ∀ slot' ∈ slots, slot'.key ≠ slot.key →
    ∀ s a, slot'.get (slot.put s a) = slot'.get s
  ext : ∀ s s', (∀ slot ∈ slots, slot.get s = slot.get s') → s = s'
  steady : ∀ slot ∈ slots, ∀ text, IsValue text → Steady slot.reader text

/-- The value of a member that may occur once is read if it has not occurred, and put in its
place. -/
theorem exists_once_reads_iff {before : Option α} {r : Reader α} {put : α → σ} {s : σ}
    {text : List Char} (hr : Steady r text) :
    (∃ r', once before r put = .ok r' ∧ Reads r' s text) ↔
      before = none ∧ ∃ a, Reads r a text ∧ put a = s := by
  rw [← hr.reads_map_iff (f := put)]
  constructor
  · rintro ⟨r', hr', h⟩
    cases before with
    | some _ => cases hr'
    | none =>
      cases hr'
      exact ⟨rfl, h⟩
  · rintro ⟨rfl, h⟩
    exact ⟨_, rfl, h⟩

theorem reads_skip_iff {s s' : σ} {text : List Char} (h : IsValue text) :
    Reads (skip *> pure s) s' text ↔ s' = s := by
  have hskip : Reads (skip *> pure s) s text := (reads_skip h).bind fun rest => rfl
  constructor
  · exact fun h => h.unique hskip
  · rintro rfl
    exact hskip

namespace IsSlotted

variable {member : String → σ → Except Fault (Reader σ)} {slots : List (Slot σ)} {lenient : Bool}
  (hslots : IsSlotted member slots lenient)
include hslots

theorem key_inj {slot slot' : Slot σ} (h : slot ∈ slots) (h' : slot' ∈ slots)
    (hkey : slot'.key = slot.key) : slot' = slot :=
  List.inj_on_of_nodup_map hslots.nodup_keys h' h hkey

theorem steady_of_member {key : String} {s : σ} {r : Reader σ} {text : List Char}
    (hr : member key s = .ok r) (h : IsValue text) : Steady r text := by
  by_cases hknown : ∃ slot ∈ slots, slot.key = key
  · obtain ⟨slot, hslot, rfl⟩ := hknown
    rw [hslots.member_key slot hslot] at hr
    cases hget : slot.get s with
    | some _ =>
      rw [hget] at hr
      cases hr
    | none =>
      rw [hget] at hr
      cases hr
      exact (hslots.steady slot hslot text h).map _
  · rw [hslots.member_other key fun slot hslot hkey => hknown ⟨slot, hslot, hkey⟩] at hr
    cases lenient with
    | false => cases hr
    | true =>
      cases hr
      exact ((reads_skip_iff h).2 rfl).steady

/-- One member fills its slot, or changes nothing. -/
theorem exists_reads_iff {m : Member} (hvalue : IsValue m.item.text) {s s' : σ} :
    (∃ r, member m.name s = .ok r ∧ Reads r s' m.item.text) ↔
      (∃ slot ∈ slots, slot.key = m.name ∧ slot.get s = none ∧
        ∃ a, Reads slot.reader a m.item.text ∧ slot.put s a = s') ∨
      (∀ slot ∈ slots, slot.key ≠ m.name) ∧ lenient = true ∧ s' = s := by
  by_cases hknown : ∃ slot ∈ slots, slot.key = m.name
  · obtain ⟨slot, hslot, hkey⟩ := hknown
    rw [← hkey, hslots.member_key slot hslot,
      exists_once_reads_iff (hslots.steady slot hslot _ hvalue)]
    constructor
    · exact fun h => .inl ⟨slot, hslot, rfl, h⟩
    · rintro (⟨slot', hslot', hkey', h⟩ | ⟨hother, -⟩)
      · obtain rfl := hslots.key_inj hslot hslot' hkey'
        exact h
      · exact absurd rfl (hother slot hslot)
  · have hother : ∀ slot ∈ slots, slot.key ≠ m.name :=
      fun slot hslot hkey => hknown ⟨slot, hslot, hkey⟩
    rw [hslots.member_other _ hother]
    constructor
    · rintro ⟨r, hr, h⟩
      cases lenient with
      | false => cases hr
      | true =>
        cases hr
        exact .inr ⟨hother, rfl, (reads_skip_iff hvalue).1 h⟩
    · rintro (⟨slot, hslot, hkey, -⟩ | ⟨-, rfl, rfl⟩)
      · exact absurd hkey (hother slot hslot)
      · exact ⟨_, rfl, (reads_skip_iff hvalue).2 rfl⟩

/-- What members amount to is what they make of each slot. -/
theorem fills_of_amounts {members : List Member} (hvalues : ∀ m ∈ members, IsValue m.item.text)
    {s s' : σ} (h : Amounts quoted member s members s') :
    ∀ slot ∈ slots, Fills slot.reader slot.key (slot.get s) members (slot.get s') := by
  induction members generalizing s with
  | nil =>
    cases h
    exact fun slot _ => fills_nil.2 rfl
  | cons m members ih =>
    obtain ⟨hvalue, hvalues⟩ := List.forall_mem_cons.1 hvalues
    obtain ⟨-, r, s₁, hr, hread, hrest⟩ := amounts_cons_iff.1 h
    have ih := ih hvalues hrest
    intro slot hslot
    rcases (hslots.exists_reads_iff hvalue).1 ⟨r, hr, hread⟩ with
      ⟨slot', hslot', hkey, hnone, a, ha, rfl⟩ | ⟨hother, -, rfl⟩
    · by_cases hsame : slot.key = slot'.key
      · obtain rfl := hslots.key_inj hslot' hslot hsame
        refine (fills_cons_self hkey.symm).2 ⟨hnone, a, ha, ?_⟩
        rw [← hslots.get_put slot hslot s a]
        exact ih slot hslot
      · refine (fills_cons_of_ne (hkey ▸ Ne.symm hsame)).2 ?_
        rw [← hslots.get_put_of_ne slot' hslot' slot hslot hsame s a]
        exact ih slot hslot
    · exact (fills_cons_of_ne (hother slot hslot).symm).2 (ih slot hslot)

/-- Members that can fill each slot amount to a state. -/
theorem exists_amounts {members : List Member} (hvalues : ∀ m ∈ members, IsValue m.item.text)
    (hnamed : ∀ m ∈ members, m.IsNamed)
    (hlenient : lenient = true ∨ ∀ m ∈ members, ∃ slot ∈ slots, slot.key = m.name) {s : σ}
    (h : ∀ slot ∈ slots, ∃ after, Fills slot.reader slot.key (slot.get s) members after) :
    ∃ s', Amounts quoted member s members s' := by
  induction members generalizing s with
  | nil => exact ⟨s, .nil s⟩
  | cons m members ih =>
    obtain ⟨hvalue, hvalues⟩ := List.forall_mem_cons.1 hvalues
    obtain ⟨hm, hnamed⟩ := List.forall_mem_cons.1 hnamed
    rw [List.forall_mem_cons] at hlenient
    have ih := @ih hvalues hnamed (hlenient.imp_right And.right)
    by_cases hknown : ∃ slot ∈ slots, slot.key = m.name
    · obtain ⟨slot, hslot, hkey⟩ := hknown
      obtain ⟨after, hafter⟩ := h slot hslot
      obtain ⟨hnone, a, ha, hrest⟩ := (fills_cons_self hkey.symm).1 hafter
      obtain ⟨s', hs'⟩ := @ih (slot.put s a) fun slot' hslot' => by
        by_cases hsame : slot'.key = slot.key
        · obtain rfl := hslots.key_inj hslot hslot' hsame
          rw [hslots.get_put slot' hslot']
          exact ⟨after, hrest⟩
        · obtain ⟨after', hafter'⟩ := h slot' hslot'
          rw [hslots.get_put_of_ne slot hslot slot' hslot' hsame]
          exact ⟨after', (fills_cons_of_ne (hkey ▸ Ne.symm hsame)).1 hafter'⟩
      obtain ⟨r, hr, hread⟩ := (hslots.exists_reads_iff hvalue).2
        (.inl ⟨slot, hslot, hkey, hnone, a, ha, rfl⟩)
      exact ⟨s', amounts_cons_iff.2 ⟨hm, r, _, hr, hread, hs'⟩⟩
    · have hother : ∀ slot ∈ slots, slot.key ≠ m.name :=
        fun slot hslot hkey => hknown ⟨slot, hslot, hkey⟩
      have hlenient : lenient = true := hlenient.resolve_right fun h => hknown h.1
      obtain ⟨s', hs'⟩ := @ih s fun slot hslot => by
        obtain ⟨after, hafter⟩ := h slot hslot
        exact ⟨after, (fills_cons_of_ne (hother slot hslot).symm).1 hafter⟩
      obtain ⟨r, hr, hread⟩ := (hslots.exists_reads_iff hvalue).2 (.inr ⟨hother, hlenient, rfl⟩)
      exact ⟨s', amounts_cons_iff.2 ⟨hm, r, _, hr, hread, hs'⟩⟩

/-- If members that are not known are refused, the members that amount to something are known. -/
theorem known_of_amounts {members : List Member} (hvalues : ∀ m ∈ members, IsValue m.item.text)
    {s s' : σ} (h : Amounts quoted member s members s') :
    lenient = true ∨ ∀ m ∈ members, ∃ slot ∈ slots, slot.key = m.name := by
  induction members generalizing s with
  | nil => exact .inr fun m hm => nomatch hm
  | cons m members ih =>
    obtain ⟨hvalue, hvalues⟩ := List.forall_mem_cons.1 hvalues
    obtain ⟨-, r, s₁, hr, hread, hrest⟩ := amounts_cons_iff.1 h
    rcases (hslots.exists_reads_iff hvalue).1 ⟨r, hr, hread⟩ with
      ⟨slot, hslot, hkey, -⟩ | ⟨-, hlenient, -⟩
    · exact (ih hvalues hrest).imp_right fun hknown =>
        List.forall_mem_cons.2 ⟨⟨slot, hslot, hkey⟩, hknown⟩
    · exact .inl hlenient

/-- The state is determined by what is made of each slot. -/
theorem amounts_of_fills {members : List Member} (hvalues : ∀ m ∈ members, IsValue m.item.text)
    (hnamed : ∀ m ∈ members, m.IsNamed)
    (hlenient : lenient = true ∨ ∀ m ∈ members, ∃ slot ∈ slots, slot.key = m.name) {s s' : σ}
    (h : ∀ slot ∈ slots, Fills slot.reader slot.key (slot.get s) members (slot.get s')) :
    Amounts quoted member s members s' := by
  obtain ⟨s'', hs''⟩ := hslots.exists_amounts hvalues hnamed hlenient
    fun slot hslot => ⟨_, h slot hslot⟩
  have hfills := hslots.fills_of_amounts hvalues hs''
  obtain rfl : s'' = s' :=
    hslots.ext _ _ fun slot hslot => (hfills slot hslot).unique (h slot hslot)
  exact hs''

/-! ## Other sets of members -/

/-- **The order of the members makes no difference.** -/
theorem amounts_perm {members members' : List Member}
    (hvalues : ∀ m ∈ members, IsValue m.item.text) {s s' : σ}
    (h : Amounts quoted member s members s') (hperm : members'.Perm members) :
    Amounts quoted member s members' s' := by
  refine hslots.amounts_of_fills (fun m hm => hvalues m (hperm.subset hm))
    (fun m hm => h.isNamed m (hperm.subset hm)) ?_ fun slot hslot =>
      (hslots.fills_of_amounts hvalues h slot hslot).perm hperm
  exact (hslots.known_of_amounts hvalues h).imp_right fun hknown m hm =>
    hknown m (hperm.subset hm)

/-- **A member that is not known makes no difference**, if it is not refused. -/
theorem amounts_insert {front back : List Member} {m : Member} (hvalue : IsValue m.item.text)
    (hnamed : m.IsNamed) (hother : ∀ slot ∈ slots, slot.key ≠ m.name) (hlenient : lenient = true)
    {s s' : σ} (h : Amounts quoted member s (front ++ back) s') :
    Amounts quoted member s (front ++ m :: back) s' := by
  obtain ⟨s₁, hfront, hback⟩ := amounts_append_iff.1 h
  obtain ⟨r, hr, hread⟩ := (hslots.exists_reads_iff hvalue).2 (.inr ⟨hother, hlenient, rfl⟩)
  exact amounts_append_iff.2 ⟨s₁, hfront, amounts_cons_iff.2 ⟨hnamed, r, s₁, hr, hread, hback⟩⟩

/-- **A second member with a known key is refused.** -/
theorem member_eq_error_of_mem {members : List Member}
    (hvalues : ∀ m ∈ members, IsValue m.item.text) {s s' : σ}
    (h : Amounts quoted member s members s') {slot : Slot σ} (hslot : slot ∈ slots) {m : Member}
    (hm : m ∈ members) (hname : m.name = slot.key) :
    member slot.key s' = .error .mismatch := by
  obtain ⟨a, ha⟩ := (hslots.fills_of_amounts hvalues h slot hslot).exists_eq_some hm hname
  rw [hslots.member_key slot hslot, ha]
  rfl

/-- **Without a known member its slot stays as it was**, and the others do not change. -/
theorem exists_amounts_leave_out {front back : List Member} {m : Member}
    (hvalues : ∀ m' ∈ front ++ m :: back, IsValue m'.item.text) {s s' : σ}
    (h : Amounts quoted member s (front ++ m :: back) s') {slot : Slot σ} (hslot : slot ∈ slots)
    (hname : m.name = slot.key) :
    ∃ s'', Amounts quoted member s (front ++ back) s'' ∧ slot.get s'' = slot.get s ∧
      ∀ slot' ∈ slots, slot'.key ≠ slot.key → slot'.get s'' = slot'.get s' := by
  have hsub : ∀ m' ∈ front ++ back, m' ∈ front ++ m :: back := by
    intro m' hm'
    simp only [List.mem_append, List.mem_cons] at hm' ⊢
    tauto
  have hfills := hslots.fills_of_amounts hvalues h
  have hself := (hfills slot hslot).leave_out hname
  have hothers (slot' : Slot σ) (hslot' : slot' ∈ slots) (hne : slot'.key ≠ slot.key) :
      Fills slot'.reader slot'.key (slot'.get s) (front ++ back) (slot'.get s') := by
    have hperm : (m :: (front ++ back)).Perm (front ++ m :: back) := List.perm_middle.symm
    exact (fills_cons_of_ne (hname ▸ hne.symm)).1 ((hfills slot' hslot').perm hperm)
  obtain ⟨s'', hs''⟩ := hslots.exists_amounts (fun m' hm' => hvalues m' (hsub m' hm'))
    (fun m' hm' => h.isNamed m' (hsub m' hm'))
    ((hslots.known_of_amounts hvalues h).imp_right fun hknown m' hm' => hknown m' (hsub m' hm'))
    (s := s) fun slot' hslot' => by
      by_cases hsame : slot'.key = slot.key
      · obtain rfl := hslots.key_inj hslot hslot' hsame
        exact ⟨_, hself⟩
      · exact ⟨_, hothers slot' hslot' hsame⟩
  have hfills'' := hslots.fills_of_amounts (fun m' hm' => hvalues m' (hsub m' hm')) hs''
  exact ⟨s'', hs'', (hfills'' slot hslot).unique hself, fun slot' hslot' hne =>
    (hfills'' slot' hslot').unique (hothers slot' hslot' hne)⟩

end IsSlotted

end Reader
end PointerMotion.Json
