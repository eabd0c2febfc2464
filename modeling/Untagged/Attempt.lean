import Untagged.Event

/-!
# Attempts

An `Attempt` is the outcome of trying to make something of a value, together with
the events told on the way.  A failed attempt keeps the events up to the failure
and leaves nothing else behind.
-/

namespace Untagged

/-- An outcome and the events told on the way to it, in order. -/
structure Attempt (ε α : Type) where
  log : List Event
  outcome : Except ε α

namespace Attempt

variable {ε δ α β : Type}

/-- Success, with nothing told. -/
def succeed (a : α) : Attempt ε α := ⟨[], .ok a⟩

def fail (e : ε) : Attempt ε α := ⟨[], .error e⟩

def ofExcept (outcome : Except ε α) : Attempt ε α := ⟨[], outcome⟩

/-- Goes on with the result of an attempt, unless it failed. -/
def andThen (x : Attempt ε α) (f : α → Attempt ε β) : Attempt ε β :=
  match x.outcome with
  | .ok a =>
    let y := f a
    ⟨x.log ++ y.log, y.outcome⟩
  | .error e => ⟨x.log, .error e⟩

/-- Tells events before an attempt. -/
def telling (events : List Event) (x : Attempt ε α) : Attempt ε α := ⟨events ++ x.log, x.outcome⟩

def map (f : α → β) (x : Attempt ε α) : Attempt ε β := ⟨x.log, x.outcome.map f⟩

def mapError (f : ε → δ) (x : Attempt ε α) : Attempt δ α := ⟨x.log, x.outcome.mapError f⟩

instance : Monad (Attempt ε) where
  pure := succeed
  bind := andThen

@[simp]
theorem outcome_succeed (a : α) : (succeed a : Attempt ε α).outcome = .ok a := rfl

@[simp]
theorem log_succeed (a : α) : (succeed a : Attempt ε α).log = [] := rfl

@[simp]
theorem outcome_fail (e : ε) : (fail e : Attempt ε α).outcome = .error e := rfl

@[simp]
theorem log_fail (e : ε) : (fail e : Attempt ε α).log = [] := rfl

/-- The outcome of a continued attempt does not hang on what was told. -/
theorem outcome_andThen (x : Attempt ε α) (f : α → Attempt ε β) :
    (x.andThen f).outcome = x.outcome.bind fun a => (f a).outcome := by
  unfold andThen
  cases x.outcome <;> rfl

/-- A continued attempt succeeds when both of its parts do. -/
theorem outcome_andThen_eq_ok {x : Attempt ε α} {f : α → Attempt ε β} {b : β} :
    (x.andThen f).outcome = .ok b ↔ ∃ a, x.outcome = .ok a ∧ (f a).outcome = .ok b := by
  rw [outcome_andThen]
  cases x.outcome with
  | ok a => simp [Except.bind]
  | error e => simp [Except.bind]

/-- A continued attempt fails for the reason of its first part, or else of its second. -/
theorem outcome_andThen_eq_error {x : Attempt ε α} {f : α → Attempt ε β} {e : ε} :
    (x.andThen f).outcome = .error e ↔
      x.outcome = .error e ∨ ∃ a, x.outcome = .ok a ∧ (f a).outcome = .error e := by
  rw [outcome_andThen]
  cases x.outcome with
  | ok a => simp [Except.bind]
  | error e' => simp [Except.bind]

theorem outcome_andThen_of_ok {x : Attempt ε α} {a : α} (h : x.outcome = .ok a)
    (f : α → Attempt ε β) : (x.andThen f).outcome = (f a).outcome := by
  rw [outcome_andThen, h]
  rfl

theorem outcome_andThen_of_error {x : Attempt ε α} {e : ε} (h : x.outcome = .error e)
    (f : α → Attempt ε β) : (x.andThen f).outcome = .error e := by
  rw [outcome_andThen, h]
  rfl

@[simp]
theorem outcome_map (f : α → β) (x : Attempt ε α) : (x.map f).outcome = x.outcome.map f := rfl

@[simp]
theorem log_map (f : α → β) (x : Attempt ε α) : (x.map f).log = x.log := rfl

@[simp]
theorem outcome_mapError (f : ε → δ) (x : Attempt ε α) :
    (x.mapError f).outcome = x.outcome.mapError f := rfl

theorem outcome_mapError_eq_ok {f : ε → δ} {x : Attempt ε α} {a : α} :
    (x.mapError f).outcome = .ok a ↔ x.outcome = .ok a := by
  rw [outcome_mapError]
  cases x.outcome with
  | ok b =>
    constructor
    · intro h
      cases h
      rfl
    · intro h
      cases h
      rfl
  | error e => exact ⟨nofun, nofun⟩

theorem outcome_map_eq_ok {f : α → β} {x : Attempt ε α} {b : β} :
    (x.map f).outcome = .ok b ↔ ∃ a, x.outcome = .ok a ∧ f a = b := by
  rw [outcome_map]
  cases x.outcome with
  | ok a => simp [Except.map]
  | error e => simp [Except.map]

/-- The outcomes of failed attempts are compared by the reasons. -/
theorem error_eq_error_iff {e e' : ε} : (.error e : Except ε α) = .error e' ↔ e' = e := by
  rw [Except.error.injEq, eq_comm]

theorem outcome_map_eq_error {f : α → β} {x : Attempt ε α} {e : ε} :
    (x.map f).outcome = .error e ↔ x.outcome = .error e := by
  rw [outcome_map]
  cases x.outcome with
  | ok a => simp [Except.map]
  | error e' => simp [Except.map]

@[simp]
theorem outcome_telling (events : List Event) (x : Attempt ε α) :
    (x.telling events).outcome = x.outcome := rfl

@[simp]
theorem log_telling (events : List Event) (x : Attempt ε α) :
    (x.telling events).log = events ++ x.log := rfl

end Attempt

end Untagged
