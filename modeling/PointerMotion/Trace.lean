import PointerMotion.Trace.Record

/-!
# Computations that leave records

Two kinds of computation leave records.  A `Logged` one always has a value.  A `Traced` one may
also stop at an arithmetic failure, and then *keeps* the records it left before: what was
reported is part of the outcome of a failure too.  Both put their records in the order in which
they were left.

A `Logged` computation is a `Traced` one that cannot fail, and checked arithmetic is a `Traced`
computation without records, so both may be used as steps of a `Traced` one.
-/

namespace PointerMotion

/-- A value and the records left on the way to it. -/
structure Logged (α : Type) where
  records : List Record
  value : α

namespace Logged

instance : Monad Logged where
  pure a := ⟨[], a⟩
  bind m f := ⟨m.records ++ (f m.value).records, (f m.value).value⟩

/-- Leave one record. -/
def report (r : Record) : Logged Unit := ⟨[r], ()⟩

variable {α β : Type}

@[simp] theorem records_pure (a : α) : (pure a : Logged α).records = [] := rfl

@[simp] theorem value_pure (a : α) : (pure a : Logged α).value = a := rfl

@[simp] theorem records_bind (m : Logged α) (f : α → Logged β) :
    (m >>= f).records = m.records ++ (f m.value).records := rfl

@[simp] theorem value_bind (m : Logged α) (f : α → Logged β) :
    (m >>= f).value = (f m.value).value := rfl

@[simp] theorem records_map (f : α → β) (m : Logged α) : (f <$> m).records = m.records :=
  List.append_nil _

@[simp] theorem value_map (f : α → β) (m : Logged α) : (f <$> m).value = f m.value := rfl

@[simp] theorem records_report (r : Record) : (report r).records = [r] := rfl

instance : LawfulMonad Logged := LawfulMonad.mk' Logged
  (by intro α m; simp [Functor.map])
  (by intro α β a f; simp [bind, pure])
  (by intro α β γ m f g; simp [bind])

end Logged

/-- An outcome and the records left on the way to it. -/
structure Traced (α : Type) where
  records : List Record
  outcome : Except Overflow α

namespace Traced

variable {α β : Type}

/-- What follows an outcome: nothing, if it is a failure. -/
def andThen (m : Traced α) (f : α → Traced β) : Traced β :=
  match m.outcome with
  | .ok a => ⟨m.records ++ (f a).records, (f a).outcome⟩
  | .error e => ⟨m.records, .error e⟩

instance : Monad Traced where
  pure a := ⟨[], .ok a⟩
  bind := andThen

instance : MonadLift Logged Traced := ⟨fun m => ⟨m.records, .ok m.value⟩⟩

instance : MonadLift (Except Overflow) Traced := ⟨fun e => ⟨[], e⟩⟩

@[simp] theorem pure_def (a : α) : (pure a : Traced α) = ⟨[], .ok a⟩ := rfl

@[simp] theorem ok_bind (rs : List Record) (a : α) (f : α → Traced β) :
    (⟨rs, .ok a⟩ : Traced α) >>= f = ⟨rs ++ (f a).records, (f a).outcome⟩ := rfl

@[simp] theorem error_bind (rs : List Record) (e : Overflow) (f : α → Traced β) :
    (⟨rs, .error e⟩ : Traced α) >>= f = ⟨rs, .error e⟩ := rfl

@[simp] theorem lift_logged (m : Logged α) :
    (liftM m : Traced α) = ⟨m.records, .ok m.value⟩ := rfl

@[simp] theorem lift_except (e : Except Overflow α) : (liftM e : Traced α) = ⟨[], e⟩ := rfl

instance : LawfulMonad Traced := LawfulMonad.mk' Traced
  (by rintro α ⟨records, _ | a⟩ <;> simp [Functor.map, andThen])
  (by intro α β a f; simp [bind, andThen])
  (by
    rintro α β γ ⟨records, _ | a⟩ f g
    · rfl
    · cases h : (f a).outcome <;> simp [bind, andThen, h])

/-- The outcome of two steps is decided by their outcomes. -/
theorem outcome_bind (m : Traced α) (f : α → Traced β) :
    (m >>= f).outcome = m.outcome.bind fun a => (f a).outcome := by
  obtain ⟨records, outcome⟩ := m
  cases outcome <;> rfl

end Traced
end PointerMotion
