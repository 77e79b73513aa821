import Mathlib.Data.List.Perm.Basic
import PointerMotion.Proofs.Document.RoundTrip
import PointerMotion.Proofs.Json.ObjectText

/-!
# Objects are sets of known members

What is read of an object depends on the members that its reader knows, and on nothing else: not
on their order, nor on members in between that are not known, unless those are refused.

For rectangles, gestures and settings each known member has a slot of its own in what was found,
and everything has been said of slots already.  An action has only one slot, for its tag.  Its
other members are kept as values, known or not, because what is known depends on the tag; they are
looked up by their keys when all of the action was read, so they might as well be in another order
(`Json.only?_perm`), and a repeated key is noticed only then.
-/

namespace PointerMotion

open Json (Fault Reader IsValue Item Member ObjectText brackets braces quote)
open Json.Reader

/-! ## Steady readers -/

theorem Coord.steady {text : List Char} (h : IsValue text) : Steady Coord.reader text :=
  (steady_integer h).wanted _

theorem Duration.steady {text : List Char} (h : IsValue text) : Steady Duration.reader text :=
  (steady_integer h).wanted _

theorem Action.tagReader_steady {text : List Char} (h : IsValue text) :
    Steady tagReader text :=
  (steady_string h).wanted _

theorem Point.steady {text : List Char} (h : IsValue text) : Steady Point.reader text := by
  refine steady_of_opens ?_ ?_ ?_ h
  · intro inner items hinner hitems
    have hcoord : ∀ i ∈ items, Begins i.text ∧ Steady Coord.reader i.text := fun i hi =>
      ⟨(hitems i hi).begins, Coord.steady (hitems i hi)⟩
    refine steady_brackets hinner rfl (closes_item hcoord fun x => ?_)
    refine closes_item (fun i hi => hcoord i (List.mem_of_mem_tail hi)) fun y => ?_
    exact closes_punctuation (idle_pure _)
  · exact fun inner members _ _ => steady_of_not_ok rfl (by decide) gives_unexpected
  · intro c hbracket _
    split
    · exact absurd rfl hbracket
    · exact gives_unexpected

namespace Action

/-- What was found of an action, if the tag and all members of its kind were. -/
def Found.action? (f : Found) : Option Action :=
  f.kind.bind fun kind => ofMembers? kind f.members.reverse

theorem required_action? (f : Found) :
    (required f.kind >>= fun kind => required (ofMembers? kind f.members.reverse)) =
      required f.action? := by
  rw [Found.action?]
  cases f.kind <;> rfl

theorem member_steady {depth : Nat} {key : String} {f : Found} {r : Reader Found}
    {text : List Char} (hr : member depth key f = .ok r) (h : IsValue text) : Steady r text := by
  unfold member at hr
  split at hr
  · cases hkind : f.kind with
    | none =>
      rw [hkind] at hr
      cases hr
      exact (tagReader_steady h).map _
    | some kind =>
      rw [hkind] at hr
      cases hr
  · cases hr
    exact (steady_value h depth).map _

theorem steady (around : Nat) {text : List Char} (h : IsValue text) :
    Steady (Action.reader around) text := by
  refine steady_of_opens ?_ ?_ ?_ h
  · intro inner items hinner hitems
    refine steady_brackets hinner rfl (closes_item (fun i hi => ?_) fun kind => ?_)
    · exact ⟨(hitems i hi).begins, tagReader_steady (hitems i hi)⟩
    · refine closes_items (fun i hi => ?_) fun values => idle_required _
      have hi := hitems i (List.mem_of_mem_tail hi)
      exact ⟨hi.begins, steady_value hi _⟩
  · intro inner members hinner hmembers
    refine steady_braces hinner rfl ?_ fun f => ?_
    · exact fun m hm k f r hr => member_steady hr (hmembers m hm)
    · rw [required_action?]
      exact idle_required _
  · intro c hbracket hbrace
    split
    · exact absurd rfl hbracket
    · exact absurd rfl hbrace
    · exact gives_unexpected

end Action

theorem Gesture.actionsReader_steady {text : List Char} (h : IsValue text) :
    Steady actionsReader text := by
  refine steady_of_opens ?_ ?_ ?_ h
  · intro inner items hinner hitems
    refine steady_brackets hinner (r := Json.Reader.items true (Action.reader 2) >>= pure)
      (by rw [bind_pure]; rfl) (closes_items (fun i hi => ?_) idle_pure)
    exact ⟨(hitems i hi).begins, Action.steady 2 (hitems i hi)⟩
  · exact fun inner members _ _ => steady_of_not_ok rfl (by decide) gives_unexpected
  · intro c hbracket _
    split
    · exact absurd rfl hbracket
    · exact gives_unexpected

/-! ## Slots -/

namespace Rect

/-- A slot for each edge. -/
def slots : List (Slot Found) :=
  [⟨Coord, "left", Coord.reader, Found.left, fun f c => { f with left := some c }⟩,
    ⟨Coord, "top", Coord.reader, Found.top, fun f c => { f with top := some c }⟩,
    ⟨Coord, "right", Coord.reader, Found.right, fun f c => { f with right := some c }⟩,
    ⟨Coord, "bottom", Coord.reader, Found.bottom, fun f c => { f with bottom := some c }⟩]

theorem isSlotted_member : IsSlotted member slots true where
  member_key := by
    simp only [slots, List.forall_mem_cons]
    exact ⟨fun s => rfl, fun s => rfl, fun s => rfl, fun s => rfl, fun slot h => nomatch h⟩
  member_other := by
    simp only [slots, List.forall_mem_cons]
    rintro key ⟨hleft, htop, hright, hbottom, -⟩ f
    unfold member
    split
    · exact absurd rfl hleft
    · exact absurd rfl htop
    · exact absurd rfl hright
    · exact absurd rfl hbottom
    · rfl
  nodup_keys := by decide
  get_put := by simp [slots]
  get_put_of_ne := by simp [slots]
  ext := by
    rintro ⟨_, _, _, _⟩ ⟨_, _, _, _⟩ h
    simpa [slots] using h
  steady := by
    simp only [slots, List.forall_mem_cons]
    exact ⟨fun _ => Coord.steady, fun _ => Coord.steady, fun _ => Coord.steady,
      fun _ => Coord.steady, fun slot h => nomatch h⟩

/-- What was found of a rectangle, if all edges were. -/
def Found.rect? (f : Found) : Option Rect :=
  return ⟨← f.left, ← f.top, ← f.right, ← f.bottom⟩

theorem readsObject : ReadsObject Rect.reader member {} Found.rect? := by
  refine readsObject_peek rfl ?_ isSlotted_member.steady_of_member
  rintro ⟨_ | _, _ | _, _ | _, _ | _⟩ <;> rfl

/-- No edge may be missing. -/
theorem Found.rect?_eq_none : ∀ slot ∈ slots, ∀ f : Found, slot.get f = none → f.rect? = none := by
  simp +contextual [slots, rect?]

end Rect

namespace Gesture

/-- A slot for each part of a gesture. -/
def slots : List (Slot Found) :=
  [⟨Point, "start", Point.reader, Found.start, fun f p => { f with start := some p }⟩,
    ⟨Duration, "delay", Duration.reader, Found.delay, fun f d => { f with delay := some d }⟩,
    ⟨List Action, "actions", actionsReader, Found.actions,
      fun f as => { f with actions := some as }⟩]

theorem isSlotted_member : IsSlotted member slots true where
  member_key := by
    simp only [slots, List.forall_mem_cons]
    exact ⟨fun s => rfl, fun s => rfl, fun s => rfl, fun slot h => nomatch h⟩
  member_other := by
    simp only [slots, List.forall_mem_cons]
    rintro key ⟨hstart, hdelay, hactions, -⟩ f
    unfold member
    split
    · exact absurd rfl hstart
    · exact absurd rfl hdelay
    · exact absurd rfl hactions
    · rfl
  nodup_keys := by decide
  get_put := by simp [slots]
  get_put_of_ne := by simp [slots]
  ext := by
    rintro ⟨_, _, _⟩ ⟨_, _, _⟩ h
    simpa [slots] using h
  steady := by
    simp only [slots, List.forall_mem_cons]
    exact ⟨fun _ => Point.steady, fun _ => Duration.steady, fun _ => actionsReader_steady,
      fun slot h => nomatch h⟩

/-- What was found of a gesture, if all of it was. -/
def Found.gesture? (f : Found) : Option Gesture :=
  return ⟨← f.start, ← f.delay, ← f.actions⟩

theorem readsObject : ReadsObject Gesture.reader member {} Found.gesture? := by
  refine readsObject_peek rfl ?_ isSlotted_member.steady_of_member
  rintro ⟨_ | _, _ | _, _ | _⟩ <;> rfl

/-- No part of a gesture may be missing. -/
theorem Found.gesture?_eq_none :
    ∀ slot ∈ slots, ∀ f : Found, slot.get f = none → f.gesture? = none := by
  simp +contextual [slots, gesture?]

end Gesture

namespace Settings

/-- The slot of a timing. -/
def Field.slot (field : Field) : Slot Found :=
  ⟨Duration, field.key, Duration.reader, fun f => f.get? field, fun f => f.put field⟩

/-- A slot for each timing. -/
def slots : List (Slot Found) := [Field.longPress.slot, Field.pressed.slot]

theorem Field.ofKey?_key (field : Field) : ofKey? field.key = some field := by
  cases field <;> decide

theorem Field.key_of_ofKey? {key : String} {field : Field} (h : ofKey? key = some field) :
    field.key = key := by
  simpa using List.find?_some h

theorem isSlotted_member : IsSlotted member slots false where
  member_key := by
    have hfield (field : Field) (f : Found) :
        member field.key f = once (f.get? field) Duration.reader (f.put field) := by
      rw [member, field.ofKey?_key]
    simp only [slots, List.forall_mem_cons]
    exact ⟨hfield .longPress, hfield .pressed, fun slot h => nomatch h⟩
  member_other := by
    simp only [slots, List.forall_mem_cons]
    rintro key ⟨hlongPress, hpressed, -⟩ f
    unfold member
    split
    · rename_i field hfield
      cases field with
      | longPress => exact absurd (Field.key_of_ofKey? hfield) hlongPress
      | pressed => exact absurd (Field.key_of_ofKey? hfield) hpressed
    · rfl
  nodup_keys := by decide
  get_put := by simp [slots, Field.slot, Found.get?_put]
  get_put_of_ne := by simp [slots, Field.slot, Found.get?_put]
  ext := by
    rintro ⟨_, _⟩ ⟨_, _⟩ h
    simpa [slots, Field.slot, Found.get?] using h
  steady := by
    simp only [slots, List.forall_mem_cons]
    exact ⟨fun _ => Duration.steady, fun _ => Duration.steady, fun slot h => nomatch h⟩

theorem readsObject : ReadsObject Settings.reader member {} fun f => some f.settings :=
  readsObject_peek rfl (fun _ => rfl) isSlotted_member.steady_of_member

/-- Settings with the default for one timing. -/
def withDefault (s : Settings) (key : String) : Settings :=
  if key = Field.longPress.key then { s with longPress := (default : Settings).longPress }
  else { s with pressed := (default : Settings).pressed }

/-- A timing that is missing has its default. -/
theorem parse_leave_out {o o' : ObjectText} {s : Settings}
    (h : Settings.reader.parse o.text = .ok s) {front back : List Member} {m : Member}
    (hmembers : o.members = front ++ m :: back) (hmembers' : o'.members = front ++ back)
    (hknown : m.name ∈ slots.map Slot.key) :
    Settings.reader.parse o'.text = .ok (s.withDefault m.name) := by
  obtain ⟨slot, hslot, hkey, f, f', hfound, hparse, hget, hothers⟩ :=
    readsObject.exists_parse_leave_out isSlotted_member h hmembers hmembers' hknown
  cases hfound
  rw [hparse, ← hkey]
  simp only [slots, List.mem_cons, List.not_mem_nil, or_false] at hslot
  rcases hslot with rfl | rfl
  · have hlongPress : f'.longPress = none := hget
    have hpressed : f'.pressed = f.pressed :=
      hothers Field.pressed.slot (by simp [slots]) (by decide)
    rw [Found.settings, Found.settings, hlongPress, hpressed]
    rfl
  · have hpressed : f'.pressed = none := hget
    have hlongPress : f'.longPress = f.longPress :=
      hothers Field.longPress.slot (by simp [slots]) (by decide)
    rw [Found.settings, Found.settings, hlongPress, hpressed]
    rfl

end Settings

/-! ## Members looked up by their keys -/

namespace Json

variable {key : String} {members members' : List (String × Json)}

theorem only?_eq_some_iff {v : Json} :
    only? key members = some v ↔ members.filter (·.1 == key) = [(key, v)] := by
  unfold only?
  split
  · rename_i key' w h
    have hkey : key' = key := by
      have hmem : (key', w) ∈ members.filter (·.1 == key) := h ▸ List.mem_singleton_self _
      simpa using (List.mem_filter.1 hmem).2
    simp [h, hkey]
  · rename_i h
    constructor
    · rintro ⟨⟩
    · exact fun hv => absurd hv (h key v)

/-- The order of the members makes no difference. -/
theorem only?_perm (h : members'.Perm members) : only? key members' = only? key members := by
  have hfilter := h.filter (·.1 == key)
  ext v
  rw [only?_eq_some_iff, only?_eq_some_iff]
  constructor
  · intro hv
    rw [hv] at hfilter
    exact List.perm_singleton.1 hfilter.symm
  · intro hv
    rw [hv] at hfilter
    exact List.perm_singleton.1 hfilter

theorem only?_cons_of_ne {m : String × Json} (h : m.1 ≠ key) :
    only? key (m :: members) = only? key members := by
  rw [only?, List.filter_cons_of_neg (by simpa using h), ← only?]

/-- If a member is the only one with its key, there is none without it. -/
theorem only?_eq_none_of_cons {v w : Json} (h : only? key ((key, v) :: members) = some w) :
    only? key members = none := by
  rw [only?_eq_some_iff, List.filter_cons_of_pos (by simp)] at h
  rw [only?, List.tail_eq_of_cons_eq h]

end Json

namespace Action

/-- Members with the same values under the keys of a kind are the same action. -/
theorem ofMembers?_congr {kind : Kind} {members members' : List (String × Json)}
    (h : ∀ key ∈ kind.keys, Json.only? key members' = Json.only? key members) :
    ofMembers? kind members' = ofMembers? kind members := by
  cases kind <;> simp_all [ofMembers?, Kind.keys]

/-- No member of the kind of an action may be missing. -/
theorem ofMembers?_eq_none {kind : Kind} {members : List (String × Json)} {key : String}
    (hkey : key ∈ kind.keys) (h : Json.only? key members = none) :
    ofMembers? kind members = none := by
  rw [← Option.not_isSome_iff_eq_none]
  intro hsome
  cases kind <;> simp [Kind.keys] at hkey <;> rcases hkey with rfl | rfl | rfl <;>
    simp [ofMembers?, Kind.keys, h] at hsome

theorem kind_of_ofValues? {kind : Kind} {values : List Json} {a : Action}
    (h : ofValues? kind values = some a) : a.kind = kind := by
  unfold ofValues? at h
  simp only [Option.bind_eq_bind, Option.pure_def] at h
  split at h <;> simp only [Option.bind_eq_some_iff, Option.some.injEq, reduceCtorEq] at h
  · obtain ⟨_, _, _, _, rfl⟩ := h
    rfl
  · obtain ⟨_, _, _, _, _, _, rfl⟩ := h
    rfl

theorem Found.kind_of_action? {f : Found} {a : Action} (h : f.action? = some a) :
    f.kind = some a.kind := by
  simp only [Found.action?, Option.bind_eq_some_iff, ofMembers?, Option.bind_eq_bind] at h
  obtain ⟨kind, hkind, _, _, h⟩ := h
  rw [hkind, kind_of_ofValues? h]

/-- What was found does not depend on the order in which it was. -/
theorem Found.action?_congr {f f' : Found} (hkind : f'.kind = f.kind)
    (h : ∀ kind ∈ f.kind, ∀ key ∈ kind.keys,
      Json.only? key f'.members = Json.only? key f.members) : f'.action? = f.action? := by
  rw [action?, action?, hkind]
  refine Option.bind_congr fun kind hmem => ofMembers?_congr fun key hkey => ?_
  rw [Json.only?_perm (List.reverse_perm _), Json.only?_perm (List.reverse_perm _)]
  exact h kind hmem key hkey

theorem Found.action?_eq_none {f : Found} {kind : Kind} {key : String} (hkind : f.kind = some kind)
    (hkey : key ∈ kind.keys) (h : Json.only? key f.members = none) : f.action? = none := by
  rw [action?, hkind, Option.bind_some]
  exact ofMembers?_eq_none hkey ((Json.only?_perm (List.reverse_perm _)).trans h)

/-! ## What the members of an action amount to -/

variable {depth : Nat}

/-- The members other than the tag are kept: each with its key and its value. -/
def Keeps (depth : Nat) (members : List Member) (kept : List (String × Json)) : Prop :=
  List.Forall₂ (fun m p => p.1 = m.name ∧ Reads (value depth) p.2 m.item.text)
    (members.filter (·.name != "action")) kept

theorem keeps_cons_tag {m : Member} (h : m.name = "action") {members : List Member}
    {kept : List (String × Json)} : Keeps depth (m :: members) kept ↔ Keeps depth members kept := by
  rw [Keeps, List.filter_cons_of_neg (by simpa using h), ← Keeps]

theorem keeps_cons {m : Member} (h : m.name ≠ "action") {members : List Member}
    {kept : List (String × Json)} : Keeps depth (m :: members) kept ↔
      ∃ v kept', Reads (value depth) v m.item.text ∧ Keeps depth members kept' ∧
        kept = (m.name, v) :: kept' := by
  rw [Keeps, List.filter_cons_of_pos (by simpa using h), List.forall₂_cons_left_iff]
  constructor
  · rintro ⟨⟨_, v⟩, kept', ⟨rfl, hv⟩, hkept, rfl⟩
    exact ⟨v, kept', hv, hkept, rfl⟩
  · rintro ⟨v, kept', hv, hkept, rfl⟩
    exact ⟨_, kept', ⟨rfl, hv⟩, hkept, rfl⟩

/-- In another order the same members are kept. -/
theorem Keeps.perm {members members' : List Member} {kept : List (String × Json)}
    (h : Keeps depth members kept) (hperm : members'.Perm members) :
    ∃ kept', Keeps depth members' kept' ∧ kept'.Perm kept :=
  List.perm_comp_forall₂ (hperm.filter _) h

/-- **What the members of an action amount to**: the tag fills its slot, and the others are kept. -/
theorem amounts_iff {members : List Member} (hvalues : ∀ m ∈ members, IsValue m.item.text)
    {f f' : Found} : Amounts quoted (member depth) f members f' ↔
      (∀ m ∈ members, m.IsNamed) ∧ Fills tagReader "action" f.kind members f'.kind ∧
        ∃ kept, Keeps depth members kept ∧ f'.members = kept.reverse ++ f.members := by
  induction members generalizing f with
  | nil =>
    constructor
    · rintro ⟨⟩
      exact ⟨List.forall_mem_nil _, fills_nil.2 rfl, [], List.Forall₂.nil, rfl⟩
    · rintro ⟨-, hkind, _, ⟨⟩, hmembers⟩
      obtain ⟨kind, others⟩ := f'
      obtain rfl : kind = f.kind := fills_nil.1 hkind
      obtain rfl : others = f.members := hmembers
      exact .nil f
  | cons m members ih =>
    obtain ⟨hvalue, hvalues⟩ := List.forall_mem_cons.1 hvalues
    have ih := @ih hvalues
    rw [amounts_cons_iff, List.forall_mem_cons]
    by_cases htag : m.name = "action"
    · simp only [fills_cons_self htag, keeps_cons_tag htag]
      rw [htag]
      have honce (f₁ : Found) :
          (∃ r, member depth "action" f = .ok r ∧ Reads r f₁ m.item.text) ↔ f.kind = none ∧
            ∃ kind, Reads tagReader kind m.item.text ∧ { f with kind := some kind } = f₁ :=
        exists_once_reads_iff (tagReader_steady hvalue)
      constructor
      · rintro ⟨hnamed, r, f₁, hr, hread, hrest⟩
        obtain ⟨hnone, kind, hkind, rfl⟩ := (honce f₁).1 ⟨r, hr, hread⟩
        obtain ⟨hnamed', hfills, hkept⟩ := ih.1 hrest
        exact ⟨⟨hnamed, hnamed'⟩, ⟨hnone, kind, hkind, hfills⟩, hkept⟩
      · rintro ⟨⟨hnamed, hnamed'⟩, ⟨hnone, kind, hkind, hfills⟩, hkept⟩
        obtain ⟨r, hr, hread⟩ := (honce _).2 ⟨hnone, kind, hkind, rfl⟩
        exact ⟨hnamed, r, _, hr, hread, ih.2 ⟨hnamed', hfills, hkept⟩⟩
    · rw [fills_cons_of_ne htag]
      constructor
      · rintro ⟨hnamed, r, f₁, hr, hread, hrest⟩
        rw [member_of_ne htag] at hr
        cases hr
        obtain ⟨v, hv, rfl⟩ := (steady_value hvalue depth).reads_map_iff.1 hread
        obtain ⟨hnamed', hfills, kept, hkept, hmembers⟩ := ih.1 hrest
        refine ⟨⟨hnamed, hnamed'⟩, hfills, _, (keeps_cons htag).2 ⟨v, kept, hv, hkept, rfl⟩, ?_⟩
        rw [hmembers, List.reverse_cons, List.append_assoc]
        rfl
      · rintro ⟨⟨hnamed, hnamed'⟩, hfills, kept, hkept, hmembers⟩
        obtain ⟨v, kept', hv, hkept', rfl⟩ := (keeps_cons htag).1 hkept
        refine ⟨hnamed, _, _, member_of_ne htag depth f, hv.map _,
          ih.2 ⟨hnamed', hfills, kept', hkept', ?_⟩⟩
        rw [hmembers, List.reverse_cons, List.append_assoc]
        rfl

theorem exists_amounts_perm {members members' : List Member}
    (hvalues : ∀ m ∈ members, IsValue m.item.text) {f f' : Found}
    (h : Amounts quoted (member depth) f members f') (hperm : members'.Perm members) :
    ∃ f'', Amounts quoted (member depth) f members' f'' ∧ f''.kind = f'.kind ∧
      f''.members.Perm f'.members := by
  obtain ⟨hnamed, hfills, kept, hkept, hmembers⟩ := (amounts_iff hvalues).1 h
  obtain ⟨kept', hkept', hperm'⟩ := hkept.perm hperm
  refine ⟨⟨f'.kind, kept'.reverse ++ f.members⟩, ?_, rfl, ?_⟩
  · exact (amounts_iff fun m hm => hvalues m (hperm.subset hm)).2
      ⟨fun m hm => hnamed m (hperm.subset hm), hfills.perm hperm, kept', hkept', rfl⟩
  · rw [hmembers]
    exact (((List.reverse_perm _).trans hperm').trans (List.reverse_perm _).symm).append_right _

/-- One more member that is not a tag is kept. -/
theorem exists_amounts_cons {m : Member} {members : List Member}
    (hvalues : ∀ m' ∈ m :: members, IsValue m'.item.text) {f f' : Found}
    (h : Amounts quoted (member depth) f members f') (hnamed : m.IsNamed)
    (hne : m.name ≠ "action") {v : Json} (hv : Reads (value depth) v m.item.text) :
    ∃ f'', Amounts quoted (member depth) f (m :: members) f'' ∧ f''.kind = f'.kind ∧
      f''.members.Perm ((m.name, v) :: f'.members) := by
  obtain ⟨hnamed', hfills, kept, hkept, hmembers⟩ :=
    (amounts_iff (List.forall_mem_cons.1 hvalues).2).1 h
  refine ⟨⟨f'.kind, ((m.name, v) :: kept).reverse ++ f.members⟩, ?_, rfl, ?_⟩
  · exact (amounts_iff hvalues).2 ⟨List.forall_mem_cons.2 ⟨hnamed, hnamed'⟩,
      (fills_cons_of_ne hne).2 hfills, _, (keeps_cons hne).2 ⟨v, kept, hv, hkept, rfl⟩, rfl⟩
  · rw [hmembers, List.reverse_cons, List.append_assoc]
    exact List.perm_middle

/-- One member less: either there is no tag then, or one value less is kept. -/
theorem exists_amounts_of_cons {m : Member} {members : List Member}
    (hvalues : ∀ m' ∈ m :: members, IsValue m'.item.text) {f f' : Found}
    (h : Amounts quoted (member depth) f (m :: members) f') :
    ∃ f'', Amounts quoted (member depth) f members f'' ∧
      (m.name = "action" → f''.kind = f.kind) ∧
      (m.name ≠ "action" → f''.kind = f'.kind ∧
        ∃ v, f'.members.Perm ((m.name, v) :: f''.members)) := by
  obtain ⟨hnamed, hfills, kept, hkept, hmembers⟩ := (amounts_iff hvalues).1 h
  have hiff := @amounts_iff depth members (List.forall_mem_cons.1 hvalues).2 f
  have hnamed' := (List.forall_mem_cons.1 hnamed).2
  by_cases htag : m.name = "action"
  · refine ⟨⟨f.kind, f'.members⟩, hiff.2 ⟨hnamed', ?_, kept, (keeps_cons_tag htag).1 hkept,
      hmembers⟩, fun _ => rfl, fun hne => absurd htag hne⟩
    show Fills _ _ _ ([] ++ members) _
    exact hfills.leave_out htag
  · obtain ⟨v, kept', -, hkept', rfl⟩ := (keeps_cons htag).1 hkept
    refine ⟨⟨f'.kind, kept'.reverse ++ f.members⟩, hiff.2 ⟨hnamed',
      (fills_cons_of_ne htag).1 hfills, kept', hkept', rfl⟩, fun h => absurd h htag,
      fun _ => ⟨rfl, v, ?_⟩⟩
    rw [hmembers, List.reverse_cons, List.append_assoc]
    exact List.perm_middle

/-! ## Other sets of members of an action -/

theorem readsObject (around : Nat) :
    ReadsObject (Action.reader around) (member (greatestDepth - around - 1)) {} Found.action? :=
  readsObject_peek rfl required_action? member_steady

theorem Found.exists_only?_eq {f : Found} {a : Action} (h : f.action? = some a) {key : String}
    (hkey : key ∈ a.kind.keys) : ∃ v, Json.only? key f.members = some v := by
  rw [← Option.ne_none_iff_exists']
  intro hnone
  rw [action?_eq_none (kind_of_action? h) hkey hnone] at h
  cases h

variable {around : Nat} {o o' : ObjectText} {a : Action}
  (h : (Action.reader around).parse o.text = .ok a)
include h

theorem parse_perm (hperm : o'.members.Perm o.members) :
    (Action.reader around).parse o'.text = .ok a := by
  obtain ⟨f, hf, ha⟩ := (readsObject around).parse_eq_ok_iff.1 h
  obtain ⟨f', hf', hkind, hmembers⟩ := exists_amounts_perm o.isValue hf hperm
  refine (readsObject around).parse_eq_ok_iff.2 ⟨f', hf', ?_⟩
  rw [Found.action?_congr hkind fun _ _ _ _ => Json.only?_perm hmembers, ha]

variable {m : Member} {v : Json}

/-- With one more member that is not a tag, what was found is looked up in one more value. -/
theorem exists_parse_cons (hperm : o'.members.Perm (m :: o.members)) (hnamed : m.IsNamed)
    (hne : m.name ≠ "action") (hv : Reads (value (greatestDepth - around - 1)) v m.item.text) :
    ∃ f f' : Found, f.action? = some a ∧ f'.kind = f.kind ∧
      f'.members.Perm ((m.name, v) :: f.members) ∧
        (Action.reader around).parse o'.text = outcome f'.action? := by
  obtain ⟨f, hf, ha⟩ := (readsObject around).parse_eq_ok_iff.1 h
  have hvalues : ∀ m' ∈ m :: o.members, IsValue m'.item.text :=
    fun m' hm' => o'.isValue m' (hperm.symm.subset hm')
  obtain ⟨f₁, hf₁, hkind₁, hmembers₁⟩ := exists_amounts_cons hvalues hf hnamed hne hv
  obtain ⟨f₂, hf₂, hkind₂, hmembers₂⟩ := exists_amounts_perm hvalues hf₁ hperm
  exact ⟨f, f₂, ha, hkind₂.trans hkind₁, hmembers₂.trans hmembers₁,
    (readsObject around).parse_of_amounts hf₂⟩

/-- A member of no meaning for the kind of the action is ignored. -/
theorem parse_insert (hperm : o'.members.Perm (m :: o.members)) (hnamed : m.IsNamed)
    (hne : m.name ≠ "action") (hother : m.name ∉ a.kind.keys)
    (hv : Reads (value (greatestDepth - around - 1)) v m.item.text) :
    (Action.reader around).parse o'.text = .ok a := by
  obtain ⟨f, f', ha, hkind, hmembers, hparse⟩ := exists_parse_cons h hperm hnamed hne hv
  rw [hparse, Found.action?_congr hkind, ha]
  · rfl
  · intro kind hmem key hkey
    obtain rfl : a.kind = kind := Option.some.inj ((Found.kind_of_action? ha).symm.trans hmem)
    have hne' : m.name ≠ key := fun hname => hother (hname ▸ hkey)
    rw [Json.only?_perm hmembers, Json.only?_cons_of_ne hne']

/-- A second member with a key of the action's kind is a mismatch. -/
theorem parse_repeat (hperm : o'.members.Perm (m :: o.members)) (hnamed : m.IsNamed)
    (hkey : m.name ∈ a.kind.keys)
    (hv : Reads (value (greatestDepth - around - 1)) v m.item.text) :
    (Action.reader around).parse o'.text = .error .mismatch := by
  have hne : m.name ≠ "action" := fun hname => a.kind.not_mem_keys (hname ▸ hkey)
  obtain ⟨f, f', ha, hkind, hmembers, hparse⟩ := exists_parse_cons h hperm hnamed hne hv
  have hnone : Json.only? m.name f'.members = none := by
    rw [Json.only?_perm hmembers, Option.eq_none_iff_forall_ne_some]
    intro w hw
    obtain ⟨w', hw'⟩ := Found.exists_only?_eq ha hkey
    cases (Json.only?_eq_none_of_cons hw).symm.trans hw'
  rw [hparse, Found.action?_eq_none (hkind.trans (Found.kind_of_action? ha)) hkey hnone]
  rfl

/-- A second tag is refused. -/
theorem parse_repeat_tag {front back : List Member} (hmembers : o.members = front ++ back)
    (hmembers' : o'.members = front ++ m :: back) (hnamed : m.IsNamed) (hname : m.name = "action")
    (hm : ∃ m' ∈ front, m'.name = "action") :
    (Action.reader around).parse o'.text = .error .mismatch := by
  obtain ⟨f, hf, -⟩ := (readsObject around).parse_eq_ok_iff.1 h
  rw [hmembers] at hf
  obtain ⟨f', hfront, -⟩ := amounts_append_iff.1 hf
  obtain ⟨-, hfills, -⟩ := (amounts_iff fun m' hm' =>
    o.isValue m' (hmembers ▸ List.mem_append_left _ hm')).1 hfront
  obtain ⟨m', hm', hname'⟩ := hm
  obtain ⟨kind, hkind⟩ := hfills.exists_eq_some hm' hname'
  refine (readsObject around).parse_of_refused hmembers' hfront hnamed ?_
  rw [hname]
  show once f'.kind tagReader _ = _
  rw [hkind]
  rfl

/-- Neither the tag nor a member of the action's kind may be missing. -/
theorem parse_leave_out (hperm : o.members.Perm (m :: o'.members))
    (hkey : m.name ∈ "action" :: a.kind.keys) :
    (Action.reader around).parse o'.text = .error .mismatch := by
  obtain ⟨f, hf, ha⟩ := (readsObject around).parse_eq_ok_iff.1 h
  have hvalues : ∀ m' ∈ m :: o'.members, IsValue m'.item.text :=
    fun m' hm' => o.isValue m' (hperm.symm.subset hm')
  obtain ⟨f₁, hf₁, hkind₁, hmembers₁⟩ := exists_amounts_perm o.isValue hf hperm.symm
  obtain ⟨f₂, hf₂, htag, hother⟩ := exists_amounts_of_cons hvalues hf₁
  rw [(readsObject around).parse_of_amounts hf₂]
  by_cases hname : m.name = "action"
  · rw [Found.action?, htag hname]
    rfl
  · have hkey := (List.mem_cons.1 hkey).resolve_left hname
    obtain ⟨hkind₂, v, hmembers₂⟩ := hother hname
    obtain ⟨w, hw⟩ := Found.exists_only?_eq ha hkey
    rw [← Json.only?_perm hmembers₁, Json.only?_perm hmembers₂] at hw
    rw [Found.action?_eq_none (hkind₂.trans (hkind₁.trans (Found.kind_of_action? ha))) hkey
      (Json.only?_eq_none_of_cons hw)]
    rfl

end Action

/-! ## All kinds of objects -/

namespace Document.Kind

/-- The keys that a value is read from. -/
def known : (k : Kind) → k.Value → List String
  | point, _ => []
  | rect, _ => ["left", "top", "right", "bottom"]
  | direction, _ => []
  | action, a => "action" :: a.kind.keys
  | gesture, _ => ["start", "delay", "actions"]
  | settings, _ => [Settings.Field.longPress.key, Settings.Field.pressed.key]

/-- What is read instead of a value if there is one more member, which is not known. -/
def withOther : (k : Kind) → k.Value → Except Fault k.Value
  | settings, _ => .error .mismatch
  | _, v => .ok v

/-- What is read instead of a value if a known member is missing. -/
def without : (k : Kind) → k.Value → String → Except Fault k.Value
  | settings, s, key => .ok (s.withDefault key)
  | _, _, _ => .error .mismatch

variable {k : Kind} (hk : k ∈ [rect, action, gesture, settings]) {o o' : ObjectText} {v : k.Value}
  (h : k.reader.parse o.text = .ok v)
include hk h

theorem parse_perm (hperm : o'.members.Perm o.members) : k.reader.parse o'.text = .ok v := by
  simp only [List.mem_cons, List.not_mem_nil, or_false] at hk
  rcases hk with rfl | rfl | rfl | rfl
  · exact Rect.readsObject.parse_perm Rect.isSlotted_member h hperm
  · exact Action.parse_perm h hperm
  · exact Gesture.readsObject.parse_perm Gesture.isSlotted_member h hperm
  · exact Settings.readsObject.parse_perm Settings.isSlotted_member h hperm

variable {front back : List Member} {m : Member}

theorem parse_insert {w : Json} (hmembers : o.members = front ++ back)
    (hmembers' : o'.members = front ++ m :: back) (hnamed : m.IsNamed)
    (hw : Reads (value 126) w m.item.text) (hother : m.name ∉ k.known v) :
    k.reader.parse o'.text = k.withOther v := by
  simp only [List.mem_cons, List.not_mem_nil, or_false] at hk
  rcases hk with rfl | rfl | rfl | rfl
  · exact Rect.readsObject.parse_insert Rect.isSlotted_member h hmembers hmembers' hnamed hother
  · obtain ⟨hne, hother⟩ := not_or.1 (List.mem_cons.not.1 hother)
    refine Action.parse_insert h ?_ hnamed hne hother hw
    rw [hmembers, hmembers']
    exact List.perm_middle
  · exact Gesture.readsObject.parse_insert Gesture.isSlotted_member h hmembers hmembers' hnamed
      hother
  · exact Settings.readsObject.parse_insert Settings.isSlotted_member h hmembers hmembers' hnamed
      hother

theorem parse_repeat {w : Json} (hmembers : o.members = front ++ back)
    (hmembers' : o'.members = front ++ m :: back) (hnamed : m.IsNamed)
    (hw : Reads (value 126) w m.item.text) (hknown : m.name ∈ k.known v)
    (hm : ∃ m' ∈ front, m'.name = m.name) : k.reader.parse o'.text = .error .mismatch := by
  simp only [List.mem_cons, List.not_mem_nil, or_false] at hk
  rcases hk with rfl | rfl | rfl | rfl
  · exact Rect.readsObject.parse_repeat Rect.isSlotted_member h hmembers hmembers' hnamed hknown hm
  · rcases List.mem_cons.1 hknown with hname | hkey
    · exact Action.parse_repeat_tag h hmembers hmembers' hnamed hname (hname ▸ hm)
    · refine Action.parse_repeat h ?_ hnamed hkey hw
      rw [hmembers, hmembers']
      exact List.perm_middle
  · exact Gesture.readsObject.parse_repeat Gesture.isSlotted_member h hmembers hmembers' hnamed
      hknown hm
  · exact Settings.readsObject.parse_repeat Settings.isSlotted_member h hmembers hmembers' hnamed
      hknown hm

theorem parse_leave_out (hmembers : o.members = front ++ m :: back)
    (hmembers' : o'.members = front ++ back) (hknown : m.name ∈ k.known v) :
    k.reader.parse o'.text = k.without v m.name := by
  simp only [List.mem_cons, List.not_mem_nil, or_false] at hk
  rcases hk with rfl | rfl | rfl | rfl
  · exact Rect.readsObject.parse_leave_out Rect.isSlotted_member h (by simp [Rect.slots])
      Rect.Found.rect?_eq_none hmembers hmembers' hknown
  · refine Action.parse_leave_out h ?_ hknown
    rw [hmembers, hmembers']
    exact List.perm_middle
  · exact Gesture.readsObject.parse_leave_out Gesture.isSlotted_member h (by simp [Gesture.slots])
      Gesture.Found.gesture?_eq_none hmembers hmembers' hknown
  · exact Settings.parse_leave_out h hmembers hmembers' hknown

/-- **Objects are sets of known members.**  Let the text of an object be read as a value.  Then the
text of an object with the same members, in any order, is read as this value.  If it has one more
member, with a key that is not known, it is read as this value too, or refused for settings; the
key may be any string and the value any that has at most 100 containers inside each other.  If it
has one more member with the key of one before it, a known one, it is a mismatch.  And without a
known member it is a mismatch, but for settings the other timing and a default. -/
theorem parse_objectText :
    (∀ o' : ObjectText, o'.members.Perm o.members → k.reader.parse o'.text = .ok v) ∧
    (∀ (o' : ObjectText) (front back : List Member) (m : Member) (key : String) (w : Json),
      o.members = front ++ back → o'.members = front ++ m :: back → m.key = quote key →
      m.item.text = w.render .compact 0 → w.Fits 100 →
        (key ∉ k.known v → k.reader.parse o'.text = k.withOther v) ∧
        (key ∈ k.known v → (∃ m' ∈ front, m'.name = key) →
          k.reader.parse o'.text = .error .mismatch)) ∧
    ∀ (o' : ObjectText) (front back : List Member) (m : Member),
      o.members = front ++ m :: back → o'.members = front ++ back → m.name ∈ k.known v →
        k.reader.parse o'.text = k.without v m.name := by
  refine ⟨fun o' => parse_perm hk h, ?_, fun o' front back m => parse_leave_out hk h⟩
  intro o' front back m key w hmembers hmembers' hkey htext hw
  have hquoted : ∀ rest, quoted (m.key ++ rest) = .ok (key, rest) := by
    rw [hkey]
    exact quoted_quote key
  have hnamed := Member.isNamed_of_quoted hquoted
  have hread : Reads (value 126) w m.item.text := by
    rw [htext]
    exact reads_value Json.Layout.addsBlanks_compact (hw.mono (by decide)) 0
  rw [← Member.name_eq hquoted]
  exact ⟨parse_insert hk h hmembers hmembers' hnamed hread,
    parse_repeat hk h hmembers hmembers' hnamed hread⟩

omit hk h in
/-- A pause with its tag at the end, and one with a member that belongs to other actions. -/
theorem parse_objectText_pause :
    let v : Action := .pause ⟨1, 2⟩ (.ofMillis 3)
    let place : String × Json := ("at", .array [.integer 1, .integer 2])
    let o := ObjectText.ofMembers [("action", .string "pause"), place, ("duration", .integer 3)]
    let o₁ := ObjectText.ofMembers [("duration", .integer 3), place, ("action", .string "pause")]
    let o₂ := ObjectText.ofMembers
      [("action", .string "pause"), ("to", .null), place, ("duration", .integer 3)]
    action ∈ [rect, action, gesture, settings] ∧ (Action.reader 0).parse o.text = .ok v ∧
      o₁.members.Perm o.members ∧ (Action.reader 0).parse o₁.text = .ok v ∧
      (Action.reader 0).parse o₂.text = .ok v := by
  intro v place o o₁ o₂
  have hk : action ∈ [rect, action, gesture, settings] := by decide
  have ho : o.text = v.toJson.compact := by decide +kernel
  have h : action.reader.parse o.text = .ok v := ho ▸ action.parse_compact_eq_kept v
  have hperm : o₁.members.Perm o.members := List.reverse_perm o.members
  obtain ⟨horder, hmore, -⟩ := parse_objectText hk h
  refine ⟨hk, h, hperm, horder o₁ hperm, ?_⟩
  exact (hmore o₂ [_] [_, _] _ "to" .null rfl rfl rfl rfl trivial).1 (by decide)

end Document.Kind

end PointerMotion
