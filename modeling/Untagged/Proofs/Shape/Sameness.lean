import Untagged.Proofs.Agreement
import Untagged.Proofs.Double.Rounding
import Untagged.Proofs.Json.Sameness
import Untagged.Proofs.Shape.MemberOrder

/-!
# Shapes respect equality of values

A shape respects equality when it makes equal things of equal values, or nothing of
either (`Shape.Respects`).  The message of a rejection may differ: equal objects may
have their members in different orders, and so a different one is the first at
fault.

Numbers are where equality is not identity.  Two floats may be the two zeros, so
what is made of them is equal as numbers only, while an integer is equal to itself
alone and its nearest float is no NaN.

A record respects an equality of drafts that all its members respect
(`Record.respects`).
-/

namespace Untagged

/-! ## Numbers -/

namespace Double

theorem equal_self {x : Double} (h : x.isNaN = false) : x.equal x = true := by
  simp [equal, h]

/-- Rounding a quotient never makes a NaN. -/
theorem not_isNaN_ofQuotient (negative : Bool) (num den : Nat) :
    (ofQuotient negative num den).isNaN = false := by
  have hle : min infinityCode (nearestCode (num * one) den) ≤ infinityCode := Nat.min_le_left _ _
  have hlt : infinityCode < signBit := by decide
  rw [isNaN, ofQuotient, code_ofCode (Nat.lt_of_le_of_lt hle hlt)]
  exact decide_eq_false (Nat.not_lt.mpr hle)

theorem not_isNaN_ofInt (i : Int) : (ofInt i).isNaN = false := by
  cases i with
  | ofNat n => exact not_isNaN_ofQuotient false n 1
  | negSucc n => exact not_isNaN_ofQuotient true (n + 1) 1

end Double

/-! ## Scalars, lists and optional values -/

namespace Shape

variable {α : Type}

/-- Of two equal values the shape makes things related by `R`, or it rejects both. -/
def Respects (shape : Shape α) (R : α → α → Prop) : Prop :=
  ∀ v w, v.Distinct → w.Distinct → Json.same v w = true →
    Agree (fun _ _ => True) R (shape.decode v).outcome (shape.decode w).outcome

theorem Respects.mono {shape : Shape α} {R S : α → α → Prop} (h : shape.Respects R)
    (hRS : ∀ a b, R a b → S a b) : shape.Respects S :=
  fun v w hv hw hvw => (h v w hv hw hvw).mono (fun _ _ => id) hRS

theorem string_respects : Shape.string.Respects Eq := by
  intro v w _ _ hvw
  cases Json.sameForm_of_same hvw with
  | string s => exact .ok rfl
  | _ => exact .error trivial

theorem boolean_respects : Shape.boolean.Respects Eq := by
  intro v w _ _ hvw
  cases Json.sameForm_of_same hvw with
  | boolean b => exact .ok rfl
  | _ => exact .error trivial

theorem int64_respects : Shape.int64.Respects Eq := by
  intro v w _ _ hvw
  cases Json.sameForm_of_same hvw with
  | integer i =>
    show Agree _ Eq (decodeInteger .int64 int64? (.number (.integer i))).outcome _
    cases hi : int64? i.val with
    | some n =>
      simp only [Shape.int64, decodeInteger, hi]
      exact .ok rfl
    | none =>
      simp only [Shape.int64, decodeInteger, hi]
      exact .error trivial
  | _ => exact .error trivial

theorem double_respects : Shape.double.Respects fun x y => x.equal y = true := by
  intro v w _ _ hvw
  cases Json.sameForm_of_same hvw with
  | integer i => exact .ok (Double.equal_self (Double.not_isNaN_ofInt i.val))
  | float h => exact .ok h
  | _ => exact .error trivial

theorem decodeItems_agree {item : Shape α} {R : α → α → Prop} (h : item.Respects R)
    {vs ws : List Json} (hvs : ∀ v ∈ vs, v.Distinct) (hws : ∀ w ∈ ws, w.Distinct)
    (hsame : List.Forall₂ (fun v w => Json.same v w = true) vs ws) :
    Agree (fun _ _ => True) (List.Forall₂ R) (decodeItems item.decode vs).outcome
      (decodeItems item.decode ws).outcome := by
  induction hsame with
  | nil => exact .ok .nil
  | @cons v w vs ws hvw _ ih =>
    rw [List.forall_mem_cons] at hvs hws
    refine (h v w hvs.1 hws.1 hvw).andThen fun a b hab => ?_
    exact (ih hvs.2 hws.2).map fun as bs habs => .cons hab habs

theorem list_respects {item : Shape α} {R : α → α → Prop} (h : item.Respects R) :
    (Shape.list item).Respects (List.Forall₂ R) := by
  intro v w hv hw hvw
  cases Json.sameForm_of_same hvw with
  | array hsame =>
    exact decodeItems_agree h (Json.distinctItems_iff.mp hv) (Json.distinctItems_iff.mp hw) hsame
  | _ => exact .error trivial

theorem option_respects {inner : Shape α} {R : α → α → Prop} (h : inner.Respects R) :
    inner.option.Respects (Option.Rel R) := by
  intro v w hv hw hvw
  have hinner : Agree (fun _ _ => True) (Option.Rel R) ((inner.decode v).map some).outcome
      ((inner.decode w).map some).outcome :=
    (h v w hv hw hvw).map fun a b hab => .some hab
  cases Json.sameForm_of_same hvw with
  | null => exact .ok .none
  | _ => exact hinner

theorem list_respects_eq {item : Shape α} (h : item.Respects Eq) :
    (Shape.list item).Respects Eq :=
  (list_respects h).mono fun as bs habs => by rwa [List.forall₂_eq_eq_eq] at habs

theorem option_respects_eq {inner : Shape α} (h : inner.Respects Eq) :
    inner.option.Respects Eq := by
  refine (option_respects h).mono fun a b hab => ?_
  cases hab with
  | none => rfl
  | some hab => rw [hab]

end Shape

/-! ## Records -/

namespace Member

variable {σ α : Type} {name : String} {shape : Shape α}

/-- Equal values are read alike into drafts that are alike. -/
def Respects (m : Member σ) (R : σ → σ → Prop) : Prop :=
  ∀ v w, v.Distinct → w.Distinct → Json.same v w = true → ∀ s t, R s t →
    Agree (fun _ _ => True) R (m.read v s).outcome (m.read w t).outcome

theorem SetsBy.respects {m : Member σ} {set : α → σ → σ} (hm : m.SetsBy shape.decode set)
    {E : α → α → Prop} {R : σ → σ → Prop} (hshape : shape.Respects E)
    (hset : ∀ a b s t, E a b → R s t → R (set a s) (set b t)) : m.Respects R := by
  intro v w hv hw hvw s t hst
  rw [hm v s, hm w t]
  exact (hshape v w hv hw hvw).map fun a b hab => hset a b s t hab hst

theorem SetsBy.respects_eq {m : Member σ} {set : α → σ → σ} (hm : m.SetsBy shape.decode set)
    (hshape : shape.Respects Eq) : m.Respects Eq :=
  hm.respects hshape fun _ _ _ _ hab hst => by rw [hab, hst]

theorem required_setsBy (get : σ → α) (set : α → σ → σ) :
    (Member.required name shape get set).SetsBy shape.decode set :=
  fun _ _ => rfl

theorem omitted_setsBy (get : σ → Option α) (set : Option α → σ → σ) :
    (Member.omitted name shape get set).SetsBy shape.option.decode set :=
  fun _ _ => rfl

theorem defaulted_setsBy (get : σ → Option α) (set : Option α → σ → σ) :
    (Member.defaulted name shape get set).SetsBy shape.option.decode set :=
  fun _ _ => rfl

end Member

namespace Record

variable {σ : Type} {r : Record σ} {R : σ → σ → Prop}

/-- In declared order equal objects are read alike, member by member. -/
theorem readAll_declared_agree {ms ns : List (String × Json)} (hms : (Json.object ms).Distinct)
    (hns : (Json.object ns).Distinct) (hsame : Json.same (.object ms) (.object ns) = true)
    {members : List (Member σ)} (hmembers : ∀ m ∈ members, m.Respects R) {s t : σ}
    (hst : R s t) :
    Agree (fun _ _ => True) R (readAll (declared ms members) s).outcome
      (readAll (declared ns members) t).outcome := by
  induction members generalizing s t with
  | nil => exact .ok hst
  | cons m members ih =>
    rw [List.forall_mem_cons] at hmembers
    rw [Json.distinct_object_iff] at hms hns
    have hlookup := Json.lookup?_of_same hms.1 hsame m.name
    rw [declared, declared, List.filterMap_cons, List.filterMap_cons]
    cases hv : Json.lookup? m.name ms with
    | none =>
      rw [hv] at hlookup
      cases hw : Json.lookup? m.name ns with
      | none => exact ih hmembers.2 hst
      | some w =>
        rw [hw] at hlookup
        cases hlookup
    | some v =>
      rw [hv] at hlookup
      cases hw : Json.lookup? m.name ns with
      | none =>
        rw [hw] at hlookup
        cases hlookup
      | some w =>
        rw [hw] at hlookup
        cases hlookup with
        | some hvw =>
          have hvd : v.Distinct := hms.2 _ (Json.mem_of_lookup? hv)
          have hwd : w.Distinct := hns.2 _ (Json.mem_of_lookup? hw)
          refine (hmembers.1 v w hvd hwd hvw s t hst).andThen fun s' t' hst' => ?_
          exact ih hmembers.2 hst'

theorem readElements_agree {members : List (Member σ)} (hmembers : ∀ m ∈ members, m.Respects R)
    {vs ws : List Json} (hvs : ∀ v ∈ vs, v.Distinct) (hws : ∀ w ∈ ws, w.Distinct)
    (hsame : List.Forall₂ (fun v w => Json.same v w = true) vs ws) (index : Nat) {s t : σ}
    (hst : R s t) :
    Agree (fun _ _ => True) R (r.readElements index members vs s).outcome
      (r.readElements index members ws t).outcome := by
  induction members generalizing vs ws index s t with
  | nil => exact .ok hst
  | cons m members ih =>
    rw [List.forall_mem_cons] at hmembers
    cases hsame with
    | nil =>
      rw [readElements, readElements]
      by_cases hpositional : m.isPositional = true
      · rw [if_pos hpositional, if_pos hpositional]
        exact .error trivial
      · rw [if_neg hpositional, if_neg hpositional]
        exact ih hmembers.2 hvs hws .nil (index + 1) hst
    | @cons v w vs ws hvw hsame =>
      rw [List.forall_mem_cons] at hvs hws
      refine (hmembers.1 v w hvs.1 hws.1 hvw s t hst).andThen fun s' t' hst' => ?_
      exact ih hmembers.2 hvs.2 hws.2 hsame (index + 1) hst'

theorem respects (hr : r.Orderly) (hblank : R r.blank r.blank)
    (hmembers : ∀ m ∈ r.members, m.Respects R) : r.shape.Respects R := by
  intro v w hv hw hvw
  cases Json.sameForm_of_same hvw with
  | @object ms ns hsame =>
    have hms := (Json.distinct_object_iff.mp hv).1
    have hns := (Json.distinct_object_iff.mp hw).1
    have hnames := Json.names_perm_of_same hms hsame
    have hread := readAll_declared_agree hv hw hsame hmembers hblank
    refine Agree.of_ok (fun s hs => ?_) fun t ht => ?_
    · obtain ⟨hadmits, hs⟩ := (decode_object_eq_ok_iff hr hms).mp hs
      rw [hs] at hread
      generalize hy : (readAll (declared ns r.members) r.blank).outcome = y at hread
      cases hread with
      | ok hst =>
        exact ⟨_, (decode_object_eq_ok_iff hr hns).mpr ⟨hadmits.of_perm hnames, hy⟩, hst⟩
    · obtain ⟨hadmits, ht⟩ := (decode_object_eq_ok_iff hr hns).mp ht
      obtain ⟨s, hs⟩ := hread.exists_ok_iff.mpr ⟨t, ht⟩
      exact ⟨s, (decode_object_eq_ok_iff hr hms).mpr ⟨hadmits.of_perm hnames.symm, hs⟩⟩
  | @array vs ws hsame =>
    have hread := readElements_agree (r := r) hmembers (Json.distinctItems_iff.mp hv)
      (Json.distinctItems_iff.mp hw) hsame 0 hblank
    refine hread.andThen fun s t hst => ?_
    rw [← hsame.length_eq]
    by_cases hlength : r.members.length < vs.length
    · rw [if_pos hlength, if_pos hlength]
      exact .error trivial
    · rw [if_neg hlength, if_neg hlength]
      exact .ok hst
  | _ => exact .error trivial

end Record

end Untagged
