import PointerMotion.Document.Settings

/-!
# What a document keeps

A document holds durations as whole milliseconds, so a value with durations is not always what is
read after it was written: each duration is replaced by `Duration.kept`.  Points, tags, and the
number and order of actions are what they were.

`IsWhole` are the durations that lose nothing: the whole numbers of milliseconds that have a
number of their own, and the longest duration, to which the greatest number belongs
(`kept_eq_self_iff`).  Keeping is idempotent and does not change the number in the document, so a
value that was read once is never changed again.
-/

namespace PointerMotion

namespace Duration

/-- A whole number of milliseconds below the greatest number, or the longest duration. -/
def IsWhole (d : Duration) : Prop := d = longest ∨ ∃ m < greatestWritten, d = ofMillis m

theorem millis_ofMillis {m : Nat} (h : m < greatestWritten) : (ofMillis m).millis = m := by
  rw [millis, nanos_ofMillis (Nat.le_of_lt h), Nat.mul_div_cancel m (by decide)]

theorem greatestWritten_le_millis_longest : greatestWritten ≤ longest.millis := by decide

theorem isWhole_kept (d : Duration) : d.kept.IsWhole := by
  unfold kept
  split
  · rename_i h
    exact .inr ⟨d.millis, h, rfl⟩
  · exact .inl rfl

theorem IsWhole.kept {d : Duration} (h : d.IsWhole) : d.kept = d := by
  rcases h with rfl | ⟨m, hm, rfl⟩
  · exact if_neg (Nat.not_lt.2 greatestWritten_le_millis_longest)
  · rw [Duration.kept, millis_ofMillis hm, if_pos hm]

/-- **The durations that documents do not change.** -/
theorem kept_eq_self_iff {d : Duration} : d.kept = d ↔ d.IsWhole := by
  constructor
  · intro h
    exact h ▸ d.isWhole_kept
  · exact IsWhole.kept

theorem written_kept (d : Duration) : d.kept.written = d.written := by
  unfold kept
  split
  · rename_i h
    rw [written, millis_ofMillis h, written]
  · rename_i h
    rw [written, written, Nat.min_eq_right greatestWritten_le_millis_longest,
      Nat.min_eq_right (Nat.le_of_not_lt h)]

/-- What a number stands for is a whole duration. -/
theorem isWhole_of_ofWritten? {n : Int} {d : Duration} (h : ofWritten? n = some d) :
    d.IsWhole := by
  rw [ofWritten?] at h
  split at h
  · rename_i hn
    cases h
    exact .inr ⟨n.toNat, by omega, rfl⟩
  · split at h
    · cases h
      exact .inl rfl
    · cases h

end Duration

/-! ## Values with durations -/

/-- An action as a document keeps it. -/
def Action.kept : Action → Action
  | pause point d => pause point d.kept
  | move origin target d => move origin target d.kept

@[simp] theorem Action.start_kept (a : Action) : a.kept.start = a.start := by
  cases a <;> rfl

@[simp] theorem Action.finish_kept (a : Action) : a.kept.finish = a.finish := by
  cases a <;> rfl

namespace Gesture

/-- A gesture as a document keeps it. -/
def kept (g : Gesture) : Gesture := ⟨g.start, g.delay.kept, g.actions.map Action.kept⟩

/-- A document keeps where the pointer is lifted. -/
@[simp] theorem finish_kept (g : Gesture) : g.kept.finish = g.finish := by
  rw [finish, finish, kept, List.getLast?_map]
  cases g.actions.getLast? with
  | none => rfl
  | some a => exact a.finish_kept

/-- The durations of a gesture: the delay, and one for each action. -/
def durations (g : Gesture) : List Duration := g.delay :: g.actions.map Action.duration

end Gesture

namespace Settings

/-- Settings as a document keeps them. -/
def kept (s : Settings) : Settings := ⟨s.longPress.kept, s.pressed.kept⟩

end Settings

theorem Action.kept_eq_self_iff {a : Action} : a.kept = a ↔ a.duration.IsWhole := by
  cases a <;> simp [kept, duration, Duration.kept_eq_self_iff]

theorem Action.toJson_kept (a : Action) : a.kept.toJson = a.toJson := by
  cases a <;> simp [kept, toJson, kind, values, Duration.toJson, Duration.written_kept]

theorem Gesture.kept_eq_self_iff {g : Gesture} :
    g.kept = g ↔ ∀ d ∈ g.durations, d.IsWhole := by
  have hactions : g.actions.map Action.kept = g.actions ↔
      ∀ a ∈ g.actions, a.duration.IsWhole := by
    have h := List.map_inj_left (f := Action.kept) (g := id) (l := g.actions)
    simpa only [List.map_id, id_eq, Action.kept_eq_self_iff] using h
  obtain ⟨start, delay, actions⟩ := g
  simp only [kept, durations, Gesture.mk.injEq, true_and, Duration.kept_eq_self_iff,
    List.forall_mem_cons, List.forall_mem_map] at hactions ⊢
  rw [hactions]

theorem Gesture.toJson_kept (g : Gesture) : g.kept.toJson = g.toJson := by
  simp [kept, toJson, Duration.toJson, Duration.written_kept, Function.comp_def,
    Action.toJson_kept]

theorem Settings.kept_eq_self_iff {s : Settings} :
    s.kept = s ↔ ∀ d ∈ [s.longPress, s.pressed], d.IsWhole := by
  obtain ⟨longPress, pressed⟩ := s
  simp [kept, Duration.kept_eq_self_iff]

theorem Settings.toJson_kept (s : Settings) : s.kept.toJson = s.toJson := by
  simp [kept, toJson, Duration.toJson, Duration.written_kept]

end PointerMotion
