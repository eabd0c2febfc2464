import Untagged.Proofs.Union.Trial

/-!
# Decoding with validation

Validation stands behind decoding and looks at the value that was decoded.  It lets a
value without findings through and fails for any other, and a text that is not decoded
fails as it does without validation.  Which variant a text becomes is settled before:
the findings of the first candidate that accepts count, whatever the candidates behind
it would have made of the text (`decodeChecked_of_firstAccepts`).
-/

namespace Untagged.Union

variable {α : Type} {u : Union α} {text : String}

theorem decodeChecked_of_ok {x : OneOf α} (h : (u.decodeText text).outcome = .ok x) :
    (u.decodeChecked text).outcome =
      if u.validate x = [] then .ok x else .error (.invalid u.name (u.validate x)) := by
  rw [decodeChecked, Attempt.outcome_andThen_of_ok h]
  by_cases hx : u.validate x = []
  · rw [if_pos hx, hx]
    rfl
  · rw [if_neg hx]
    split
    · next hnil => exact absurd hnil hx
    · rfl

theorem decodeChecked_of_error {e : DecodeError} (h : (u.decodeText text).outcome = .error e) :
    (u.decodeChecked text).outcome = .error e :=
  Attempt.outcome_andThen_of_error h _

theorem decodeChecked_eq_ok_iff {x : OneOf α} :
    (u.decodeChecked text).outcome = .ok x ↔
      (u.decodeText text).outcome = .ok x ∧ u.validate x = [] := by
  cases h : (u.decodeText text).outcome with
  | ok y =>
    rw [decodeChecked_of_ok h, Except.ok.injEq]
    by_cases hy : u.validate y = []
    · rw [if_pos hy, Except.ok.injEq]
      exact ⟨fun heq => ⟨heq, heq ▸ hy⟩, fun hx => hx.1⟩
    · rw [if_neg hy]
      exact ⟨nofun, fun hx => absurd (hx.1 ▸ hx.2) hy⟩
  | error e =>
    rw [decodeChecked_of_error h]
    exact ⟨nofun, nofun⟩

/-- Decoding alone never fails for findings, so a failure for findings is one of
validation. -/
theorem decodeChecked_eq_invalid_iff {name : String} {findings : List Finding} :
    (u.decodeChecked text).outcome = .error (.invalid name findings) ↔
      name = u.name ∧ findings ≠ [] ∧
        ∃ x, (u.decodeText text).outcome = .ok x ∧ u.validate x = findings := by
  cases h : (u.decodeText text).outcome with
  | ok y =>
    rw [decodeChecked_of_ok h]
    by_cases hy : u.validate y = []
    · rw [if_pos hy]
      refine ⟨nofun, fun hinvalid => ?_⟩
      obtain ⟨-, hne, x, hx, rfl⟩ := hinvalid
      cases hx
      exact absurd hy hne
    · rw [if_neg hy]
      constructor
      · intro heq
        cases heq
        exact ⟨rfl, hy, y, rfl, rfl⟩
      · intro hinvalid
        obtain ⟨rfl, -, x, hx, rfl⟩ := hinvalid
        cases hx
        rfl
  | error e =>
    rw [decodeChecked_of_error h]
    constructor
    · intro heq
      obtain ⟨-, hsettled⟩ := settled_decodeRead u (Json.ofText text)
      exact absurd (h.trans heq) (hsettled name findings)
    · intro hinvalid
      obtain ⟨-, -, x, hx, -⟩ := hinvalid
      cases hx

/-- A failure that is not for findings is the one of decoding. -/
theorem decodeChecked_eq_error_iff {e : DecodeError} (he : ∀ name findings, e ≠ .invalid name findings) :
    (u.decodeChecked text).outcome = .error e ↔ (u.decodeText text).outcome = .error e := by
  cases h : (u.decodeText text).outcome with
  | ok x =>
    rw [decodeChecked_of_ok h]
    refine ⟨fun heq => ?_, nofun⟩
    by_cases hx : u.validate x = []
    · rw [if_pos hx] at heq
      cases heq
    · rw [if_neg hx] at heq
      exact absurd (Except.error.inj heq).symm (he _ _)
  | error d => rw [decodeChecked_of_error h]

theorem decodeChecked_of_firstAccepts {v : Json} {k : Nat} {a : α} (htext : Json.ofText text = .ok v)
    (hv : v.kind.isContainer = true) (h : FirstAccepts u.candidates v k a) :
    (u.decodeChecked text).outcome =
      if u.findings a = [] then .ok (.holding a) else .error (.invalid u.name (u.findings a)) := by
  have hdecode : (u.decodeText text).outcome = .ok (.holding a) := by
    rw [decodeText, htext]
    exact decode_of_firstAccepts hv h
  exact decodeChecked_of_ok hdecode

end Untagged.Union
