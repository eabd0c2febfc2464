import Untagged.Proofs.Schema.Records
import Untagged.Proofs.Union.Declared
import Untagged.Proofs.Union.Order
import Untagged.Proofs.Unions.Orderly
import Untagged.UnionChoice

/-!
# The schema of fruit requests and their decoder

The published schema asks for exactly one of two closed records, and the decoder takes
the first that it can read.  On objects the two agree: an object validates where it
decodes, and only against the alternative at the place of the variant that it becomes.
They part on arrays, which the decoder reads by position and the schema does not
admit.
-/

namespace Untagged

open TypeSchema

/-- The published schema. -/
def fruitReqDocument : Json := (TypeSchema.document (UnionChoice.schema .fruitReq)).toJson

/-- Two references in declared order, and the two closed records that they refer to. -/
theorem fruitReqDocument_eq :
    fruitReqDocument = .object [
      ("$schema", .string "https://json-schema.org/draft/2020-12/schema"),
      ("title", .string "FruitReq"),
      ("oneOf", .array [
        .object [("$ref", .string "#/$defs/AppleReq")],
        .object [("$ref", .string "#/$defs/BananaReq")]]),
      ("$defs", .object [
        ("AppleReq", .object [
          ("description", .string "Apple variant of a fruit request."),
          ("type", .string "object"),
          ("properties", .object [
            ("cultivar", .object [("type", .string "string")]),
            ("mealy", .object [("type", .array [.string "boolean", .string "null"])])]),
          ("additionalProperties", .boolean false),
          ("required", .array [.string "cultivar"])]),
        ("BananaReq", .object [
          ("description", .string "Banana variant of a fruit request."),
          ("type", .string "object"),
          ("properties", .object [
            ("lengthCm", .object [("type", .string "number"), ("format", .string "double")]),
            ("sweet", .object [("type", .array [.string "boolean", .string "null"])])]),
          ("additionalProperties", .boolean false),
          ("required", .array [.string "lengthCm"])])])] := by
  rfl

theorem AppleReq.members_described {m : Member AppleReq} (hm : m ∈ AppleReq.record.members)
    (order : RecordOrder) (root : Json) : m.Described order root := by
  rcases hm with _ | ⟨_, _ | ⟨_, hm⟩⟩
  · exact (Member.required_setsBy _ _).described rfl nofun Shape.string_described
  · exact (Member.omitted_setsBy _ _).described rfl nofun Shape.option_boolean_described
  · cases hm

theorem BananaReq.members_described {m : Member BananaReq} (hm : m ∈ BananaReq.record.members)
    (order : RecordOrder) (root : Json) : m.Described order root := by
  rcases hm with _ | ⟨_, _ | ⟨_, hm⟩⟩
  · exact (Member.required_setsBy _ _).described rfl nofun Shape.double_described
  · exact (Member.omitted_setsBy _ _).described rfl nofun Shape.option_boolean_described
  · cases hm

theorem definition_apple :
    definition fruitReqDocument "#/$defs/AppleReq" = AppleReq.record.definitionOf .ofDocument := by
  rfl

theorem definition_banana :
    definition fruitReqDocument "#/$defs/BananaReq" =
      BananaReq.record.definitionOf .ofDocument := by
  rfl

theorem alternativesOf_fruitReqDocument :
    alternativesOf fruitReqDocument =
      [.object [("$ref", .string "#/$defs/AppleReq")],
        .object [("$ref", .string "#/$defs/BananaReq")]] := by
  rw [fruitReqDocument_eq]
  rfl

/-! ## Objects -/

section Objects

variable {v : Json} (hv : (v.members.map Prod.fst).Nodup) (depth : Nat)

include hv in
theorem valid_apple_iff :
    valid fruitReqDocument (depth + 3) (.object [("$ref", .string "#/$defs/AppleReq")]) v = true ↔
      v.kind = .object ∧ AppleReq.record.shape.Accepts v := by
  rw [valid_reference, definition_apple]
  exact Record.valid_iff AppleReq.record_orderly
    (fun m hm => AppleReq.members_described hm .ofDocument fruitReqDocument) hv

include hv in
theorem valid_banana_iff :
    valid fruitReqDocument (depth + 3) (.object [("$ref", .string "#/$defs/BananaReq")]) v = true ↔
      v.kind = .object ∧ BananaReq.record.shape.Accepts v := by
  rw [valid_reference, definition_banana]
  exact Record.valid_iff BananaReq.record_orderly
    (fun m hm => BananaReq.members_described hm .ofDocument fruitReqDocument) hv

theorem Candidate.ofShape_accepts_some_iff {α β : Type} {name : String} {shape : Shape β}
    {wrap : β → α} : (∃ a, (Candidate.ofShape name shape wrap).Accepts v a) ↔ shape.Accepts v := by
  simp only [Candidate.ofShape_accepts_iff]
  exact ⟨fun ⟨_, b, hb, _⟩ => ⟨b, hb⟩, fun ⟨b, hb⟩ => ⟨wrap b, b, hb, rfl⟩⟩

include hv in
/-- A document validates against an alternative where it is an object that the
candidate in the same place accepts. -/
theorem validates_alternative_iff {j : Nat} {c : Candidate FruitVariant} {s : Json}
    (hc : fruitReq.candidates[j]? = some c)
    (hs : (alternativesOf fruitReqDocument)[j]? = some s) :
    Validates fruitReqDocument s v ↔ v.kind = .object ∧ ∃ a, c.Accepts v a := by
  rw [alternativesOf_fruitReqDocument] at hs
  match j with
  | 0 =>
    cases hc
    cases hs
    rw [Candidate.ofShape_accepts_some_iff]
    exact validates_iff_of 3 (valid_apple_iff hv)
  | 1 =>
    cases hc
    cases hs
    rw [Candidate.ofShape_accepts_some_iff]
    exact validates_iff_of 3 (valid_banana_iff hv)
  | j + 2 => cases hc

/-- What is decoded is an apple or a banana. -/
theorem fruitReq_decode_iff (hcontainer : v.kind.isContainer = true) :
    (∃ x, (fruitReq.decode v).outcome = .ok x) ↔
      AppleReq.record.shape.Accepts v ∨ BananaReq.record.shape.Accepts v := by
  constructor
  · rintro ⟨x, hx⟩
    obtain ⟨c, hc, a, ha, -⟩ := Union.exists_accepts_of_decode hx
    rcases hc with _ | ⟨_, _ | ⟨_, hc⟩⟩
    · exact .inl (Candidate.ofShape_accepts_some_iff.mp ⟨a, ha⟩)
    · exact .inr (Candidate.ofShape_accepts_some_iff.mp ⟨a, ha⟩)
    · cases hc
  · have decoded {k : Nat} {c : Candidate FruitVariant} (hc : fruitReq.candidates[k]? = some c) :
        (∃ a, c.Accepts v a) → ∃ x, (fruitReq.decode v).outcome = .ok x := by
      rintro ⟨a, ha⟩
      obtain ⟨j, b, hj, -⟩ := FirstAccepts.exists_of_accepts hc ha
      exact ⟨.holding b, Union.decode_of_firstAccepts hcontainer hj⟩
    rintro (ha | hb)
    · exact decoded (k := 0) rfl (Candidate.ofShape_accepts_some_iff.mpr ha)
    · exact decoded (k := 1) rfl (Candidate.ofShape_accepts_some_iff.mpr hb)

theorem countP_pair_eq_one_iff {α : Type} {p : α → Bool} {a b : α}
    (h : ¬ (p a = true ∧ p b = true)) : [a, b].countP p = 1 ↔ p a = true ∨ p b = true := by
  cases ha : p a with
  | true =>
    have hb : p b = false := Bool.eq_false_iff.mpr fun hb => h ⟨ha, hb⟩
    simp [ha, hb]
  | false => cases hb : p b <;> simp [ha, hb]

include hv in
theorem valid_fruitReqDocument_iff :
    valid fruitReqDocument (depth + 4) fruitReqDocument v = true ↔
      v.kind = .object ∧ ∃ x, (fruitReq.decode v).outcome = .ok x := by
  have htop : valid fruitReqDocument (depth + 4) fruitReqDocument v = true ↔
      ((alternativesOf fruitReqDocument).countP fun s => valid fruitReqDocument (depth + 3) s v) =
        1 :=
    valid_oneOf_iff rfl (by decide)
  -- No document meets both alternatives, so one of them is exactly one.
  have hdisjoint : ¬ ((v.kind = .object ∧ AppleReq.record.shape.Accepts v) ∧
      (v.kind = .object ∧ BananaReq.record.shape.Accepts v)) :=
    fun ⟨⟨_, _, ha⟩, ⟨_, _, hb⟩⟩ => not_apple_and_banana ha hb
  rw [htop, alternativesOf_fruitReqDocument, countP_pair_eq_one_iff, valid_apple_iff hv,
    valid_banana_iff hv, ← and_or_left]
  · refine and_congr_right fun hobject => ?_
    rw [fruitReq_decode_iff (by rw [hobject]; rfl)]
  · rwa [valid_apple_iff hv, valid_banana_iff hv]

/-- Two places whose candidates accept one document are the same place. -/
theorem fruitReq_place_unique {i j : Nat} {c d : Candidate FruitVariant} {a b : FruitVariant}
    (hc : fruitReq.candidates[i]? = some c) (hd : fruitReq.candidates[j]? = some d)
    (ha : c.Accepts v a) (hb : d.Accepts v b) : i = j := by
  obtain rfl : c = d := fruitReq_candidates_disjoint (List.mem_of_getElem? hc)
    (List.mem_of_getElem? hd) ha hb
  have hi : fruitReq.names[i]? = some c.name := by
    rw [Union.names, List.getElem?_map, hc]
    rfl
  have hj : fruitReq.names[j]? = some c.name := by
    rw [Union.names, List.getElem?_map, hd]
    rfl
  have hlt : i < fruitReq.names.length := (List.getElem?_eq_some_iff.mp hi).1
  exact (List.getElem?_inj hlt (by decide)).mp (hi.trans hj.symm)

end Objects

/-! ## Arrays -/

/-- The arrays that are decoded: a cultivar or a length, and at most one truth value
behind it. -/
theorem fruitReq_decode_array_iff {vs : List Json} :
    (∃ x, (fruitReq.decode (.array vs)).outcome = .ok x) ↔
      ∃ v rest, vs = v :: rest ∧ (v.kind = .string ∨ v.kind = .number) ∧
        (rest = [] ∨ ∃ w, rest = [w] ∧ (w.kind = .null ∨ w.kind = .boolean)) := by
  have happle : AppleReq.record.shape.Accepts (.array vs) ↔ _ :=
    Record.accepts_array_pair_iff rfl rfl rfl (Member.required_setsBy _ _)
      (Member.omitted_setsBy _ _)
  have hbanana : BananaReq.record.shape.Accepts (.array vs) ↔ _ :=
    Record.accepts_array_pair_iff rfl rfl rfl (Member.required_setsBy _ _)
      (Member.omitted_setsBy _ _)
  simp only [Shape.string_accepts_iff, Shape.double_accepts_iff, Shape.option_accepts_iff,
    Shape.boolean_accepts_iff] at happle hbanana
  rw [fruitReq_decode_iff rfl, happle, hbanana]
  constructor
  · rintro (⟨v, rest, hvs, hv, hrest⟩ | ⟨v, rest, hvs, hv, hrest⟩)
    · exact ⟨v, rest, hvs, .inl hv, hrest⟩
    · exact ⟨v, rest, hvs, .inr hv, hrest⟩
  · rintro ⟨v, rest, hvs, hv | hv, hrest⟩
    · exact .inl ⟨v, rest, hvs, hv, hrest⟩
    · exact .inr ⟨v, rest, hvs, hv, hrest⟩

/-- The schema and the decoder agree on objects, and only arrays are decoded that do
not validate. -/
theorem fruitReq_schema_describes_objects :
    (∀ body : Json.Body, body.value.kind = .object →
      (Validates fruitReqDocument fruitReqDocument body.value ↔
        ∃ x, (fruitReq.decode body.value).outcome = .ok x) ∧
      ∀ x, (fruitReq.decode body.value).outcome = .ok x →
        ∃ i a, FirstAccepts fruitReq.candidates body.value i a ∧ x = .holding a ∧
          fruitReq.names[i]? = fruitReq.variantName? x ∧
          i < (alternativesOf fruitReqDocument).length ∧
          ∀ j s, (alternativesOf fruitReqDocument)[j]? = some s →
            (Validates fruitReqDocument s body.value ↔ j = i)) ∧
    (∀ v, v.kind ≠ .object → ¬ Validates fruitReqDocument fruitReqDocument v) ∧
    (∀ v, v.kind ≠ .object → v.kind ≠ .array → ∀ x, (fruitReq.decode v).outcome ≠ .ok x) ∧
    ∀ vs, (∃ x, (fruitReq.decode (.array vs)).outcome = .ok x) ↔
      ∃ v rest, vs = v :: rest ∧ (v.kind = .string ∨ v.kind = .number) ∧
        (rest = [] ∨ ∃ w, rest = [w] ∧ (w.kind = .null ∨ w.kind = .boolean)) := by
  refine ⟨?_, ?_, ?_, fun vs => fruitReq_decode_array_iff⟩
  · intro body hobject
    constructor
    · rw [validates_iff_of 4 (valid_fruitReqDocument_iff body.nodup)]
      exact and_iff_right hobject
    · intro x hx
      obtain ⟨-, i, a, hi, rfl⟩ := Union.decode_eq_ok_iff.mp hx
      obtain ⟨c, hc, ha⟩ := hi.accepts
      have hlength : (alternativesOf fruitReqDocument).length = fruitReq.candidates.length := by
        rw [alternativesOf_fruitReqDocument]
        rfl
      have hname : fruitReq.names[i]? = fruitReq.variantName? (.holding a) := by
        have hvariant := fruitReq_declared.variantName_of_accepts (List.mem_of_getElem? hc) ha
        rw [Union.names, List.getElem?_map, hc]
        exact congrArg some hvariant.symm
      refine ⟨i, a, hi, rfl, hname, hlength ▸ hi.lt_length, ?_⟩
      intro j s hs
      have hj : j < fruitReq.candidates.length := hlength ▸ (List.getElem?_eq_some_iff.mp hs).1
      have hd := List.getElem?_eq_getElem hj
      rw [validates_alternative_iff body.nodup hd hs]
      constructor
      · rintro ⟨-, b, hb⟩
        exact fruitReq_place_unique hd hc hb ha
      · rintro rfl
        rw [hc] at hd
        cases hd
        exact ⟨hobject, a, ha⟩
  · intro v hv h
    have hmembers : v.members = [] := by
      cases v with
      | object given => exact absurd rfl hv
      | _ => rfl
    have hvalid := (validates_iff_of 4 (valid_fruitReqDocument_iff (by simp [hmembers]))).mp h
    exact hv hvalid.1
  · intro v hobject harray x hx
    obtain ⟨hcontainer, -⟩ := Union.decode_eq_ok_iff.mp hx
    obtain h | h := Kind.isContainer_eq_true_iff.mp hcontainer
    · exact hobject h
    · exact harray h

/-- A banana whose sweetness is `null` validates, against the second alternative; one
whose length is a text neither validates nor decodes. -/
theorem null_sweetness_validates :
    let banana : Json := .object [("sweet", .null), ("lengthCm", .number (.integer (.ofInt64 3)))]
    let spoiled : Json := .object [("lengthCm", .string "3")]
    Validates fruitReqDocument fruitReqDocument banana ∧
    (∀ s, (alternativesOf fruitReqDocument)[0]? = some s → ¬ Validates fruitReqDocument s banana) ∧
    (∀ s, (alternativesOf fruitReqDocument)[1]? = some s → Validates fruitReqDocument s banana) ∧
    ¬ Validates fruitReqDocument fruitReqDocument spoiled := by
  intro banana spoiled
  obtain ⟨hobjects, -⟩ := fruitReq_schema_describes_objects
  have hx : (fruitReq.decode banana).outcome = .ok (.holding (.banana ⟨Double.ofInt 3, none⟩)) :=
    rfl
  obtain ⟨hbanana, hplace⟩ := hobjects ⟨banana, by decide⟩ rfl
  obtain ⟨i, a, -, -, hname, -, halternative⟩ := hplace _ hx
  obtain rfl : i = 1 := by
    have hvariant : fruitReq.names[i]? = fruitReq.names[1]? := hname
    have hlt : i < fruitReq.names.length :=
      (List.getElem?_eq_some_iff.mp (hvariant.trans (by rfl))).1
    exact (List.getElem?_inj hlt (by decide)).mp hvariant
  refine ⟨hbanana.mpr ⟨_, hx⟩, fun s hs h => ?_, fun s hs => (halternative 1 s hs).mpr rfl, ?_⟩
  · exact absurd ((halternative 0 s hs).mp h) (by decide)
  · intro h
    obtain ⟨x, hx⟩ := (hobjects ⟨spoiled, by decide⟩ rfl).1.mp h
    cases hx

end Untagged
