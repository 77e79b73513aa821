import PointerMotion.Proofs.Json.Members

/-!
# Values with their keys in order

`Json.sorted` puts the members of every object in the order of their keys, and changes nothing
else.  So a value with different keys in every object comes out with *increasing* ones; and what
was no concern of the order, such as the depth of the containers, is as it was.

What is asked of every object in a value is a property of its keys alone, so one predicate serves
for what goes in and for what comes out (`EveryObject`).
-/

namespace PointerMotion.Json

/-- The keys of every object in the value have the property. -/
inductive EveryObject (p : List String → Prop) : Json → Prop where
  | null : EveryObject p .null
  | bool (b : Bool) : EveryObject p (.bool b)
  | number (n : Number) : EveryObject p (.number n)
  | string (s : String) : EveryObject p (.string s)
  | array {items : List Json} (h : ∀ v ∈ items, EveryObject p v) : EveryObject p (.array items)
  | object {members : List (String × Json)} (hkeys : p (members.map Prod.fst))
      (h : ∀ m ∈ members, EveryObject p m.2) : EveryObject p (.object members)

/-- No key stands twice in an object of the value. -/
def HasDistinctKeys : Json → Prop := EveryObject List.Nodup

/-- The keys of every object in the value increase. -/
def HasIncreasingKeys : Json → Prop := EveryObject (List.Pairwise (· < ·))

theorem sortedItems_eq_map (items : List Json) : sortedItems items = items.map sorted := by
  induction items with
  | nil => rfl
  | cons v items ih => rw [sortedItems, ih, List.map_cons]

theorem sortedMembers_eq_map (members : List (String × Json)) :
    sortedMembers members = members.map fun m => (m.1, m.2.sorted) := by
  induction members with
  | nil => rfl
  | cons m members ih => rw [sortedMembers, ih, List.map_cons]

theorem sorted_array (items : List Json) :
    (Json.array items).sorted = .array (items.map sorted) := by
  rw [sorted, sortedItems_eq_map]

theorem sorted_object (members : List (String × Json)) :
    (Json.object members).sorted = .object (byKey (members.map fun m => (m.1, m.2.sorted))) := by
  rw [sorted, sortedMembers_eq_map]

theorem byKey_perm (members : List (String × Json)) : (byKey members).Perm members :=
  List.mergeSort_perm _ _

/-- Different keys increase when they are sorted. -/
theorem pairwise_byKey {members : List (String × Json)} (h : (members.map Prod.fst).Nodup) :
    ((byKey members).map Prod.fst).Pairwise (· < ·) := by
  have hle : ((byKey members).map Prod.fst).Pairwise (· ≤ ·) := by
    rw [List.pairwise_map]
    refine (List.pairwise_mergeSort ?_ ?_ members).imp of_decide_eq_true
    · intro a b c hab hbc
      exact decide_eq_true (String.le_trans (of_decide_eq_true hab) (of_decide_eq_true hbc))
    · intro a b
      simpa using String.le_total a.1 b.1
  have hne : ((byKey members).map Prod.fst).Nodup := ((byKey_perm members).map _).nodup_iff.2 h
  refine (hle.and hne).imp fun hab => String.not_le.1 fun hba => ?_
  exact hab.2 (String.le_antisymm hab.1 hba)

/-- **Sorting makes different keys increase**, in every object. -/
theorem hasIncreasingKeys_sorted {v : Json} (h : v.HasDistinctKeys) :
    v.sorted.HasIncreasingKeys := by
  induction h with
  | null => exact .null
  | bool b => exact .bool b
  | number n => exact .number n
  | string s => exact .string s
  | array h ih =>
    rw [sorted_array]
    exact .array (List.forall_mem_map.2 ih)
  | @object members hkeys h ih =>
    rw [sorted_object]
    refine .object (pairwise_byKey ?_) fun m hm => ?_
    · rw [List.map_map]
      exact hkeys
    · obtain ⟨m', hm', rfl⟩ := List.mem_map.1 ((byKey_perm _).subset hm)
      exact ih m' hm'

/-- Sorting changes neither the depth nor the numbers. -/
theorem Fits.sorted {depth : Nat} {v : Json} (h : v.Fits depth) : v.sorted.Fits depth := by
  induction depth generalizing v with
  | zero =>
    cases v with
    | array => exact h.elim
    | object => exact h.elim
    | _ => exact h
  | succ depth ih =>
    cases v with
    | array items =>
      rw [sorted_array]
      exact List.forall_mem_map.2 fun v hv => ih (h v hv)
    | object members =>
      rw [sorted_object]
      intro m hm
      obtain ⟨m', hm', rfl⟩ := List.mem_map.1 ((byKey_perm _).subset hm)
      exact ih (h m' hm')
    | _ => exact h

namespace Reader

variable {α σ : Type}

/-- What is rendered of members has values of the grammar. -/
theorem isValue_of_mem_rendered {layout : Layout} (hl : layout.AddsBlanks) (d : Nat)
    (members : List (String × Json)) :
    ∀ m ∈ (members.map fun m => (m.1, m.2.render layout (d + 1))).map (hl.member d),
      IsValue m.item.text := by
  rw [List.map_map]
  exact List.forall_mem_map.2 fun m _ => isValue_render hl (d + 1) m.2

/-- **The order of the keys is no concern of a reader with slots.** -/
theorem IsSlotted.reads_byKey {member : String → σ → Except Fault (Reader σ)}
    {slots : List (Slot σ)} {lenient : Bool} (hslots : IsSlotted member slots lenient)
    {layout : Layout} (hl : layout.AddsBlanks) (d : Nat) {f : Char → Reader α} {g : σ → Reader α}
    {s s' : σ} {members : List (String × Json)} {a : α} (hf : f '{' = object member s >>= g)
    (h : Collects member s (members.map fun m => (m.1, m.2.render layout (d + 1))) s')
    (hg : ∀ rest, g s' rest = .ok (a, rest)) :
    Reads (peek >>= f) a ((Json.object (byKey members)).render layout d) := by
  rw [render_object]
  refine reads_braces_of_amounts hl d hf (hslots.amounts_perm (isValue_of_mem_rendered hl d members)
    (h.amounts hl d) ?_) hg
  exact ((byKey_perm members).map _).map _

end Reader
end PointerMotion.Json
