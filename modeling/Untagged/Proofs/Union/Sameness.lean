import Untagged.Proofs.Shape.Sameness
import Untagged.Proofs.Union.Trial

/-!
# Equal documents are decoded alike

Two equal documents may have the members of their objects in different orders, at
any depth, and may differ in the sign of a zero.  A union whose candidates respect
equality decodes both to equal values of one variant, or fails on both with the same
error (`Union.respectsSameness`).  What a candidate says when it rejects a document
is not the same for both, and does not reach the error.
-/

namespace Untagged

namespace Candidate

variable {α β : Type}

/-- Of two equal documents the candidate makes variants related by `R`, or it
rejects both. -/
def Respects (c : Candidate α) (R : α → α → Prop) : Prop :=
  ∀ v w, v.Distinct → w.Distinct → Json.same v w = true →
    Agree (fun _ _ => True) R (c.decode v).outcome (c.decode w).outcome

theorem ofShape_respects {name : String} {shape : Shape β} {wrap : β → α} {S : β → β → Prop}
    {R : α → α → Prop} (h : shape.Respects S) (hwrap : ∀ a b, S a b → R (wrap a) (wrap b)) :
    (ofShape name shape wrap).Respects R :=
  fun v w hv hw hvw => (h v w hv hw hvw).map hwrap

theorem ofShape_respects_eq {name : String} {shape : Shape β} {wrap : β → α}
    (h : shape.Respects Eq) : (ofShape name shape wrap).Respects Eq :=
  ofShape_respects h fun _ _ hab => congrArg wrap hab

end Candidate

namespace Union

variable {α : Type} {u : Union α} {R : α → α → Prop}

/-- Equal values that hold a variant of one name. -/
def Alike (u : Union α) (x y : OneOf α) : Prop :=
  u.sameValue x y = true ∧ u.variantName? x = u.variantName? y

/-- Equal documents become values that are alike, or fail with one error. -/
def RespectsSameness (u : Union α) : Prop :=
  ∀ v w, v.Distinct → w.Distinct → Json.same v w = true →
    Agree Eq u.Alike (u.decode v).outcome (u.decode w).outcome

theorem firstMatch_respects {cs : List (Candidate α)} (hcs : ∀ c ∈ cs, c.Respects R)
    {v w : Json} (hv : v.Distinct) (hw : w.Distinct) (hvw : Json.same v w = true)
    (name : String) :
    Option.Rel R (firstMatch name v cs).2 (firstMatch name w cs).2 := by
  induction cs with
  | nil => exact .none
  | cons c cs ih =>
    rw [List.forall_mem_cons] at hcs
    have hc := hcs.1 v w hv hw hvw
    -- The candidate takes both documents, or both go to the candidates behind it.
    generalize hx : (c.decode v).outcome = x, hy : (c.decode w).outcome = y at hc
    cases hc with
    | ok hab =>
      rw [firstMatch_cons_of_accepts hx, firstMatch_cons_of_accepts hy]
      exact .some hab
    | error _ =>
      rw [firstMatch_cons_of_rejects hx, firstMatch_cons_of_rejects hy]
      exact ih hcs.2

theorem respectsSameness (hcs : ∀ c ∈ u.candidates, c.Respects R)
    (hR : ∀ a b, R a b → u.same a b = true ∧ u.variantName a = u.variantName b) :
    u.RespectsSameness := by
  intro v w hv hw hvw
  have hkind : v.kind = w.kind := (Json.sameForm_of_same hvw).kind_eq
  by_cases hcontainer : v.kind.isContainer = true
  · have hfound := firstMatch_respects hcs hv hw hvw u.name
    rw [outcome_decode_of_container hcontainer,
      outcome_decode_of_container (hkind ▸ hcontainer)]
    generalize (firstMatch u.name v u.candidates).2 = found,
      (firstMatch u.name w u.candidates).2 = found' at hfound
    cases hfound with
    | none => exact .error rfl
    | some hab =>
      obtain ⟨hsame, hname⟩ := hR _ _ hab
      exact .ok ⟨hsame, congrArg some hname⟩
  · have hscalar : v.kind.isContainer = false := Bool.eq_false_iff.mpr hcontainer
    rw [decode_of_scalar hscalar, decode_of_scalar (hkind ▸ hscalar), hkind]
    exact .error rfl

theorem respectsSameness_eq (hcs : ∀ c ∈ u.candidates, c.Respects Eq)
    (hself : ∀ a, u.same a a = true) : u.RespectsSameness := by
  refine respectsSameness hcs ?_
  rintro a _ rfl
  exact ⟨hself a, rfl⟩

end Union

end Untagged
