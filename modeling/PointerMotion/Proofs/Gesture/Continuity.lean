import Mathlib.Data.List.Chain
import PointerMotion.Proofs.Document.RoundTrip
import PointerMotion.Proofs.Gesture.Building

/-!
# Gestures that are built are continuous

The type of gestures does not ask that an action begins where the one before it ended.  A gesture
that nobody wrote by hand has this property all the same, and keeps it: `IsContinuous` is the
invariant, and a run is any sequence of two kinds of edits.  One is a step of the builder; the
other puts in the place of a gesture what is read from its own document.

1. A step appends an action that begins where the gesture ends, so the chain is longer by one link.
2. Reading a document changes durations only, and the invariant does not speak of durations
   (`untimed`).
3. What the factory makes is a touch and steps after it, so a run that begins with a gesture of
   the factory is the end of a run that begins with a touch.
-/

namespace PointerMotion

/-- An action in no time: what is left of it when its duration is disregarded. -/
def Action.untimed : Action → Action
  | pause point _ => pause point .zero
  | move origin target _ => move origin target .zero

@[simp] theorem Action.start_untimed (a : Action) : a.untimed.start = a.start := by
  cases a <;> rfl

@[simp] theorem Action.finish_untimed (a : Action) : a.untimed.finish = a.finish := by
  cases a <;> rfl

@[simp] theorem Action.untimed_kept (a : Action) : a.kept.untimed = a.untimed := by
  cases a <;> rfl

namespace Gesture

variable {g : Gesture}

/-- A gesture without its durations. -/
def untimed (g : Gesture) : Gesture := ⟨g.start, .zero, g.actions.map Action.untimed⟩

theorem untimed_kept (g : Gesture) : g.kept.untimed = g.untimed := by
  simp [untimed, kept]

/-! ## The invariant -/

/-- The first action begins at the start, and every later one where the one before it ended. -/
structure IsContinuous (g : Gesture) : Prop where
  begins : ∀ a ∈ g.actions.head?, a.start = g.start
  chained : g.actions.IsChain fun a b => b.start = a.finish

theorem isContinuous_touch (start : Point) (delay : Duration) :
    (touch start delay).IsContinuous where
  begins := by rintro a ⟨⟩
  chained := .nil

theorem finish_of_getLast? {a : Action} (h : g.actions.getLast? = some a) :
    g.finish = a.finish := by
  rw [finish, h]

theorem finish_of_actions_eq_nil (h : g.actions = []) : g.finish = g.start := by
  rw [finish, h]
  rfl

/-- An action that begins where the gesture ends is one more link of the chain. -/
theorem IsContinuous.append (h : g.IsContinuous) {a : Action} (ha : a.start = g.finish) :
    (g.append a).IsContinuous where
  begins := by
    intro b hb
    cases hactions : g.actions with
    | nil =>
      rw [Gesture.append, hactions] at hb
      cases hb
      rw [ha, finish_of_actions_eq_nil hactions]
      rfl
    | cons c rest =>
      rw [Gesture.append, hactions] at hb
      cases hb
      exact h.begins _ (by rw [hactions]; rfl)
  chained := by
    refine List.isChain_append.2 ⟨h.chained, .singleton a, ?_⟩
    intro b hb c hc
    cases hc
    rw [ha, finish_of_getLast? hb]

theorem IsContinuous.step (h : g.IsContinuous) (s : Step) : (g.step s).value.IsContinuous := by
  obtain ⟨a, happend, hstart, -⟩ := g.exists_step_eq_append s
  rw [happend]
  exact h.append hstart

theorem IsContinuous.build (h : g.IsContinuous) (steps : List Step) :
    (g.build steps).IsContinuous := by
  induction steps generalizing g with
  | nil => exact h
  | cons s steps ih => exact ih (h.step s)

/-- The invariant does not depend on durations. -/
theorem isContinuous_untimed_iff : g.untimed.IsContinuous ↔ g.IsContinuous := by
  have hbegins : (∀ a ∈ g.untimed.actions.head?, a.start = g.start) ↔
      ∀ a ∈ g.actions.head?, a.start = g.start := by
    rw [untimed, List.head?_map]
    simp
  have hchained : (g.untimed.actions.IsChain fun a b => b.start = a.finish) ↔
      g.actions.IsChain fun a b => b.start = a.finish := by
    rw [untimed, List.isChain_map]
    simp
  exact ⟨fun h => ⟨hbegins.1 h.begins, hchained.1 h.chained⟩,
    fun h => ⟨hbegins.2 h.begins, hchained.2 h.chained⟩⟩

/-! ## Runs -/

/-- An edit of a gesture: a step of the builder, or writing the gesture to a document and reading
it back. -/
inductive Edit where
  | step (s : Step)
  | reread
  deriving DecidableEq

/-- The gesture after an edit. -/
def edit (g : Gesture) : Edit → Except Json.Fault Gesture
  | .step s => .ok (g.step s).value
  | .reread => reader.parse g.toJson.compact

/-- The gesture after a run of edits. -/
def edits (g : Gesture) (run : List Edit) : Except Json.Fault Gesture := run.foldlM edit g

/-- The gestures that a run may begin with: a touch, or anything that the factory makes. -/
inductive Origin : Gesture → Prop where
  | touch (start : Point) (delay : Duration) : Origin (touch start delay)
  | made (f : Factory) (request : Factory.Request) {gestures : List Gesture}
      (h : (f.perform request).outcome = .ok gestures) {g : Gesture} (hg : g ∈ gestures) : Origin g

theorem Origin.isContinuous (h : Origin g) : g.IsContinuous := by
  cases h with
  | touch start delay => exact isContinuous_touch start delay
  | made f request h hg =>
    obtain ⟨start, steps, rfl⟩ := f.exists_eq_build h g hg
    exact (isContinuous_touch start .zero).build steps

theorem edit_reread (g : Gesture) : g.edit .reread = .ok g.kept :=
  Document.Kind.parse_compact_eq_kept .gesture g

/-- **What the edits of a run keep, the run keeps.**  It does not fail, and the gesture that it
arrives at has every property that none of its edits takes from a gesture. -/
theorem exists_edits_eq_ok_of_forall_mem {P : Gesture → Prop} {run : List Edit}
    (hedit : ∀ e ∈ run, ∀ g, P g → ∃ g', g.edit e = .ok g' ∧ P g') (h : P g) :
    ∃ g', g.edits run = .ok g' ∧ P g' := by
  induction run generalizing g with
  | nil => exact ⟨g, rfl, h⟩
  | cons e run ih =>
    obtain ⟨hfirst, hrest⟩ := List.forall_mem_cons.1 hedit
    obtain ⟨g', hg', hkept⟩ := hfirst g h
    obtain ⟨g'', hedits, hg''⟩ := ih hrest hkept
    refine ⟨g'', ?_, hg''⟩
    rw [edits, List.foldlM_cons, hg']
    exact hedits

/-- What steps and reading keep, all runs keep. -/
theorem exists_edits_eq_ok {P : Gesture → Prop} (hstep : ∀ g s, P g → P (g.step s).value)
    (hreread : ∀ g, P g → P g.kept) (h : P g) (run : List Edit) :
    ∃ g', g.edits run = .ok g' ∧ P g' := by
  refine exists_edits_eq_ok_of_forall_mem (fun e _ g hg => ?_) h
  cases e with
  | step s => exact ⟨_, rfl, hstep g s hg⟩
  | reread => exact ⟨g.kept, g.edit_reread, hreread g hg⟩

theorem IsContinuous.kept (h : g.IsContinuous) : g.kept.IsContinuous := by
  rw [← isContinuous_untimed_iff, untimed_kept]
  exact isContinuous_untimed_iff.2 h

/-- A run succeeds and keeps the invariant. -/
theorem IsContinuous.edits (h : g.IsContinuous) (run : List Edit) :
    ∃ g', g.edits run = .ok g' ∧ g'.IsContinuous :=
  exists_edits_eq_ok (fun _ s hg => hg.step s) (fun _ hg => hg.kept) h run

/-- **Every gesture that a run arrives at is continuous.**  No run fails, and of the gesture `g`
that it arrives at:

* its first action begins at the start and every later one where the one before it ended;
* a pause begins and ends at one point, and the gesture ends where its last action does, or where
  it starts if it has no action;
* a step of the builder appends one action, changes nothing else, and a move ends at its target;
* writing and reading changes nothing but durations. -/
theorem edits_isContinuous {g₀ : Gesture} (h₀ : Origin g₀) (run : List Edit) :
    ∃ g, g₀.edits run = .ok g ∧ g.IsContinuous ∧
      (∀ a ∈ g.actions, a.kind = .pause → a.start = a.finish) ∧
      (∀ a ∈ g.actions.getLast?, g.finish = a.finish) ∧
      (g.actions = [] → g.finish = g.start) ∧
      (∀ s, ∃ a, g.edit (.step s) = .ok { g with actions := g.actions ++ [a] } ∧
        (g.step s).value.finish = s.target?.getD g.finish) ∧
      ∃ g', g.edit .reread = .ok g' ∧ g'.untimed = g.untimed := by
  obtain ⟨g, hrun, hg⟩ := h₀.isContinuous.edits run
  refine ⟨g, hrun, hg, ?_, fun a ha => finish_of_getLast? ha, finish_of_actions_eq_nil, ?_, ?_⟩
  · rintro a - ha
    cases a with
    | pause point d => rfl
    | move origin target d => cases ha
  · intro s
    obtain ⟨a, happend, -, hfinish⟩ := g.exists_step_eq_append s
    refine ⟨a, congrArg Except.ok happend, ?_⟩
    rw [happend, finish_append, hfinish]
  · exact ⟨g.kept, g.edit_reread, g.untimed_kept⟩

/-- A drag that is moved on, written and read, and held for a while. -/
theorem edits_isContinuous_drag :
    let g₀ := (Factory.drag {} ⟨1, 2⟩ ⟨30, 40⟩ 600).value
    let run := [.step (.moveTo ⟨5, 6⟩ .longest), .reread, .step (.pause .zero)]
    Origin g₀ ∧ ∃ g, g₀.edits run = .ok g ∧ g.IsContinuous := by
  have h₀ : Origin (Factory.drag {} ⟨1, 2⟩ ⟨30, 40⟩ 600).value :=
    .made {} (.drag ⟨1, 2⟩ ⟨30, 40⟩ 600) rfl (List.mem_singleton.2 rfl)
  obtain ⟨g, hrun, hg, -⟩ := edits_isContinuous h₀
    [.step (.moveTo ⟨5, 6⟩ .longest), .reread, .step (.pause .zero)]
  exact ⟨h₀, g, hrun, hg⟩

end Gesture
end PointerMotion
