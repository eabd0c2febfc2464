import Untagged.Proofs.Schema.Records
import Untagged.Proofs.Schema.Uses

/-!
# The references of a schema

A reference is a text under the name `$ref`, wherever it stands in a schema.  The schema
of a type refers to nothing but types that the type uses
(`TypeSchema.references_schemaMembers`): names of properties are no references, even where
a property has that very name, as its schema is no text.
-/

namespace Untagged

namespace Datum

/-- What a member refers to. -/
def targets (name : String) : Datum → List String
  | string s => if name = "$ref" then [s] else []
  | _ => []

mutual

/-- What a datum refers to, at every depth. -/
def references : Datum → List String
  | sequence items => itemsReferences items
  | record members => membersReferences members
  | _ => []

def itemsReferences : List Datum → List String
  | [] => []
  | d :: ds => references d ++ itemsReferences ds

def membersReferences : List (String × Datum) → List String
  | [] => []
  | (name, d) :: ds => targets name d ++ references d ++ membersReferences ds

end

theorem itemsReferences_eq_flatMap (ds : List Datum) :
    itemsReferences ds = ds.flatMap references := by
  induction ds with
  | nil => rfl
  | cons d ds ih => rw [itemsReferences, ih, List.flatMap_cons]

theorem membersReferences_eq_flatMap (ms : List (String × Datum)) :
    membersReferences ms = ms.flatMap fun m => targets m.1 m.2 ++ references m.2 := by
  induction ms with
  | nil => rfl
  | cons m ms ih =>
    obtain ⟨name, d⟩ := m
    rw [membersReferences, ih, List.flatMap_cons]

theorem membersReferences_append (ms ns : List (String × Datum)) :
    membersReferences (ms ++ ns) = membersReferences ms ++ membersReferences ns := by
  simp only [membersReferences_eq_flatMap, List.flatMap_append]

/-- A record refers to nothing itself, wherever it stands. -/
@[simp]
theorem membersReferences_record_cons (name : String) (ms ns : List (String × Datum)) :
    membersReferences ((name, record ms) :: ns) = membersReferences ms ++ membersReferences ns :=
  rfl

@[simp]
theorem membersReferences_sequence_cons (name : String) (ds : List Datum)
    (ns : List (String × Datum)) :
    membersReferences ((name, sequence ds) :: ns) = itemsReferences ds ++ membersReferences ns :=
  rfl

/-- A text under another name is no reference. -/
theorem membersReferences_string_cons {name : String} (h : name ≠ "$ref") (s : String)
    (ns : List (String × Datum)) :
    membersReferences ((name, string s) :: ns) = membersReferences ns := by
  rw [membersReferences, targets, if_neg h]
  rfl

theorem membersReferences_type_cons (s : String) (ns : List (String × Datum)) :
    membersReferences (("type", string s) :: ns) = membersReferences ns :=
  membersReferences_string_cons (by decide) s ns

end Datum

namespace TypeSchema

open Datum

/-- Where the definition of a name is found. -/
def definitionPath (name : String) : String := "#/$defs/" ++ name

@[simp]
theorem itemsReferences_texts (names : List String) :
    itemsReferences (names.map Datum.string) = [] := by
  rw [itemsReferences_eq_flatMap, List.flatMap_map]
  exact List.flatMap_eq_nil_iff.mpr fun _ _ => rfl

theorem membersReferences_orNull (schema : List (String × Datum)) :
    membersReferences (orNull schema) = membersReferences schema := by
  unfold orNull
  split
  · next t rest =>
    rw [textList, membersReferences_sequence_cons, itemsReferences_texts,
      membersReferences_string_cons (by decide), List.nil_append]
  · have hnull : references (Datum.record [("type", .string "null")]) = [] :=
      membersReferences_type_cons "null" []
    rw [membersReferences_sequence_cons, itemsReferences, itemsReferences, itemsReferences, hnull,
      membersReferences]
    simp only [List.append_nil, references]

theorem membersReferences_recordSchema (order : RecordOrder) (description : Option String)
    (closed : Bool) (properties : List (String × Datum)) (required : List String) :
    membersReferences (recordSchema order description closed (.record properties) required) =
      membersReferences properties := by
  have hdescription : membersReferences
      (optionalMember "description" (description.map Datum.string)) = [] := by
    cases description with
    | none => rfl
    | some text => exact membersReferences_string_cons (by decide) text []
  have hothers : membersReferences (optionalMember "additionalProperties"
      (if closed then some (Datum.boolean false) else none)) = [] := by
    cases closed <;> rfl
  have hrequired : membersReferences (optionalMember "required"
      (if required.isEmpty then none else some (textList required))) = [] := by
    cases required with
    | nil => rfl
    | cons name names =>
      show membersReferences [("required", textList (name :: names))] = []
      rw [textList, membersReferences_sequence_cons, itemsReferences_texts]
      rfl
  cases order with
  | ofDocument =>
    simp only [recordSchema, membersReferences_append, hdescription, hothers, hrequired,
      membersReferences_type_cons, membersReferences_record_cons, List.nil_append, List.append_nil]
  | ofDefinitions =>
    simp only [recordSchema, membersReferences_append, hdescription, hothers, hrequired,
      membersReferences_type_cons, membersReferences_record_cons, List.nil_append, List.append_nil]

theorem alternatives_eq_map (order : RecordOrder) (variants : List TypeSchema) :
    alternatives order variants = variants.map fun s => .record (schemaMembers order s) := by
  induction variants with
  | nil => rfl
  | cons s variants ih =>
    rw [alternatives, ih]
    rfl

/-- What the schema of a property refers to is what the schema of its type does. -/
theorem membersReferences_properties (order : RecordOrder)
    (members : List (String × Presence × TypeSchema)) :
    membersReferences (properties order members) =
      members.flatMap fun m => membersReferences (schemaMembers order m.2.2) := by
  rw [properties_eq_map, membersReferences_eq_flatMap, List.flatMap_map]
  refine congrArg (fun f => members.flatMap f) (funext fun m => ?_)
  show membersReferences (schemaMembers order m.2.2 ++ _) = _
  rw [membersReferences_append]
  split
  · exact List.append_nil _
  · exact List.append_nil _

/-- The schema of a type refers to types that the type uses. -/
theorem references_schemaMembers (order : RecordOrder) (s : TypeSchema) :
    membersReferences (schemaMembers order s) ⊆ s.uses.map fun d => definitionPath d.1 := by
  induction s using induction_parts with
  | h s ih =>
    have hpart : ∀ p ∈ s.parts, membersReferences (schemaMembers order p) ⊆
        s.uses.map fun d => definitionPath d.1 := fun p hp =>
      List.Subset.trans (ih p hp)
        (List.map_subset _ fun d hd => mem_uses_iff.mpr (.inr ⟨p, hp, hd⟩))
    have hparts : s.parts.flatMap (fun p => membersReferences (schemaMembers order p)) ⊆
        s.uses.map fun d => definitionPath d.1 := by
      intro target htarget
      obtain ⟨p, hp, htarget⟩ := List.mem_flatMap.mp htarget
      exact hpart p hp htarget
    cases s with
    | list item =>
      rw [schemaMembers, membersReferences_string_cons (by decide), membersReferences_record_cons]
      simpa [membersReferences] using hpart item (.head _)
    | option inner =>
      rw [schemaMembers, membersReferences_orNull]
      exact hpart inner (.head _)
    | record description closed members =>
      rw [schemaMembers, membersReferences_recordSchema, membersReferences_properties]
      rwa [parts, List.flatMap_map] at hparts
    | union title variants =>
      rw [schemaMembers, membersReferences_string_cons (by decide),
        membersReferences_sequence_cons, alternatives_eq_map, itemsReferences_eq_flatMap,
        List.flatMap_map, membersReferences, List.append_nil]
      exact hparts
    | named name body =>
      exact List.cons_subset.mpr ⟨.head _, List.nil_subset _⟩
    | _ => exact List.nil_subset _

end TypeSchema

end Untagged
