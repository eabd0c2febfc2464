import Untagged.Attempt

/-!
# Outcomes that agree

Two runs of a decoder are compared by their outcomes: both succeed, or both fail.
`Agree E R` also says how the errors and the values of the two are related.  Steps
that agree still agree when they are taken one after the other (`Agree.andThen`),
and this is how the comparisons of shapes, records and unions are put together.
-/

namespace Untagged

/-- Both outcomes are errors related by `E`, or both are values related by `R`. -/
inductive Agree {ε δ α β : Type} (E : ε → δ → Prop) (R : α → β → Prop) :
    Except ε α → Except δ β → Prop
  | ok {a : α} {b : β} (h : R a b) : Agree E R (.ok a) (.ok b)
  | error {e : ε} {f : δ} (h : E e f) : Agree E R (.error e) (.error f)

namespace Agree

variable {ε δ α β α' β' : Type} {E : ε → δ → Prop} {R : α → β → Prop} {S : α' → β' → Prop}

theorem mono {E' : ε → δ → Prop} {R' : α → β → Prop} {x : Except ε α} {y : Except δ β}
    (h : Agree E R x y) (hE : ∀ e f, E e f → E' e f) (hR : ∀ a b, R a b → R' a b) :
    Agree E' R' x y := by
  cases h with
  | ok h => exact .ok (hR _ _ h)
  | error h => exact .error (hE _ _ h)

theorem exists_ok_iff {x : Except ε α} {y : Except δ β} (h : Agree E R x y) :
    (∃ a, x = .ok a) ↔ ∃ b, y = .ok b := by
  cases h with
  | ok h => exact ⟨fun _ => ⟨_, rfl⟩, fun _ => ⟨_, rfl⟩⟩
  | error h => exact ⟨nofun, nofun⟩

/-- Outcomes agree where success of either is success of both. -/
theorem of_ok {x : Except ε α} {y : Except δ β}
    (h : ∀ a, x = .ok a → ∃ b, y = .ok b ∧ R a b) (h' : ∀ b, y = .ok b → ∃ a, x = .ok a) :
    Agree (fun _ _ => True) R x y := by
  cases x with
  | ok a =>
    obtain ⟨b, rfl, hab⟩ := h a rfl
    exact .ok hab
  | error e =>
    cases y with
    | ok b =>
      obtain ⟨a, ha⟩ := h' b rfl
      cases ha
    | error f => exact .error trivial

theorem map {x : Except ε α} {y : Except δ β} (h : Agree E R x y) {f : α → α'} {g : β → β'}
    (hfg : ∀ a b, R a b → S (f a) (g b)) : Agree E S (x.map f) (y.map g) := by
  cases h with
  | ok h => exact .ok (hfg _ _ h)
  | error h => exact .error h

theorem andThen {x : Attempt ε α} {y : Attempt δ β} (h : Agree E R x.outcome y.outcome)
    {f : α → Attempt ε α'} {g : β → Attempt δ β'}
    (hfg : ∀ a b, R a b → Agree E S (f a).outcome (g b).outcome) :
    Agree E S (x.andThen f).outcome (y.andThen g).outcome := by
  rw [Attempt.outcome_andThen, Attempt.outcome_andThen]
  generalize x.outcome = outcome, y.outcome = outcome' at h ⊢
  cases h with
  | ok h => exact hfg _ _ h
  | error h => exact .error h

end Agree

end Untagged
