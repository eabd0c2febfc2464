import Untagged.Proofs.Json.Members
import Untagged.Schema.Document

/-!
# Validation against a schema document

What a schema document says of a value, for the keywords that the schema of fruit
requests uses: `$ref`, `type` with the names of the kinds of values, `oneOf`,
`properties`, `additionalProperties` and `required`.  Titles, descriptions and
formats assert nothing.

A reference may lead back to where it stands, so `valid` descends a given number of
levels.  `Validates` is its answer from some depth on.
-/

namespace Untagged

/-- The name of a kind of values in schemas. -/
def Kind.typeName : Kind → String
  | null => "null"
  | boolean => "boolean"
  | number => "number"
  | string => "string"
  | array => "array"
  | object => "object"

namespace Json

/-- The texts in a list of values. -/
def texts : Json → List String
  | array items => items.filterMap fun
    | string s => some s
    | _ => none
  | _ => []

/-- The values in a list of values. -/
def elements : Json → List Json
  | array items => items
  | _ => []

end Json

theorem Datum.membersToJson_eq_map (ds : List (String × Datum)) :
    membersToJson ds = ds.map fun d => (d.1, d.2.toJson) := by
  induction ds with
  | nil => rfl
  | cons d ds ih =>
    obtain ⟨name, d⟩ := d
    rw [membersToJson, ih]
    rfl

namespace TypeSchema

/-- What a reference within the document `root` refers to; nothing validates against
a definition that is not there. -/
def definition (root : Json) (target : String) : Json :=
  let definitions := ((Json.lookup? "$defs" root.members).getD .null).members
  match definitions.find? fun d => "#/$defs/" ++ d.1 = target with
  | some (_, schema) => schema
  | none => .boolean false

/-- Whether the value is of the type, or of one of the types, that the keyword `type`
names. -/
def isOfType (v : Json) : Json → Bool
  | .string name => v.kind.typeName = name
  | names => names.texts.contains v.kind.typeName

/-- Whether a value validates against a schema in the document `root`, as far as
this can be told within `depth` levels of schemas. -/
def valid (root : Json) : Nat → Json → Json → Bool
  | 0, _, _ => false
  | _ + 1, .boolean b, _ => b
  | depth + 1, .object keywords, v =>
    let properties := ((Json.lookup? "properties" keywords).getD .null).members
    let asserts (keyword : String) (assertion : Json → Bool) :=
      (Json.lookup? keyword keywords).all assertion
    asserts "$ref" (fun target =>
      match target with
      | .string target => valid root depth (definition root target) v
      | _ => false)
    && asserts "type" (isOfType v)
    && asserts "oneOf" (fun alternatives =>
      (alternatives.elements.countP fun s => valid root depth s v) = 1)
    && asserts "properties" (fun _ => v.members.all fun m =>
      (Json.lookup? m.1 properties).all fun s => valid root depth s m.2)
    && asserts "additionalProperties" (fun s => v.members.all fun m =>
      (Json.lookup? m.1 properties).isSome || valid root depth s m.2)
    && asserts "required" (fun names =>
      v.kind ≠ .object || names.texts.all fun name => (Json.lookup? name v.members).isSome)
  | _ + 1, _, _ => false

/-- The value validates against the schema in the document `root`. -/
def Validates (root schema v : Json) : Prop :=
  ∃ depth, ∀ n, depth ≤ n → valid root n schema v = true

theorem validates_iff_of {root schema v : Json} {P : Prop} (depth : Nat)
    (h : ∀ n, valid root (n + depth) schema v = true ↔ P) : Validates root schema v ↔ P := by
  constructor
  · rintro ⟨least, hleast⟩
    exact (h least).mp (hleast _ (Nat.le_add_right least depth))
  · intro hP
    refine ⟨depth, fun n hn => ?_⟩
    obtain ⟨k, rfl⟩ := Nat.exists_eq_add_of_le' hn
    exact (h k).mpr hP

/-- The schemas of which a value has to meet exactly one. -/
def alternativesOf (document : Json) : List Json :=
  ((Json.lookup? "oneOf" document.members).getD .null).elements

/-! ## References and alternatives -/

theorem valid_reference {root v : Json} {depth : Nat} {target : String} :
    valid root (depth + 1) (.object [("$ref", .string target)]) v =
      valid root depth (definition root target) v := by
  simp [valid, Json.lookup?]

/-- A schema that asserts nothing but its alternatives. -/
theorem valid_oneOf_iff {root v alternatives : Json} {depth : Nat}
    {keywords : List (String × Json)} (h : Json.lookup? "oneOf" keywords = some alternatives)
    (hothers : ∀ keyword ∈ ["$ref", "type", "properties", "additionalProperties", "required"],
      keyword ∉ keywords.map Prod.fst) :
    valid root (depth + 1) (.object keywords) v = true ↔
      (alternatives.elements.countP fun s => valid root depth s v) = 1 := by
  simp only [← Json.lookup?_eq_none_iff, List.forall_mem_cons] at hothers
  obtain ⟨href, htype, hproperties, hadditional, hrequired, -⟩ := hothers
  simp [valid, h, href, htype, hproperties, hadditional, hrequired]

/-! ## The keywords of a record's schema -/

variable {root v : Json} {depth : Nat}

theorem isSome_lookup?_iff {name : String} {ms : List (String × Json)} :
    (Json.lookup? name ms).isSome = true ↔ name ∈ ms.map Prod.fst := by
  rw [Option.isSome_iff_ne_none, ne_eq, Json.lookup?_eq_none_iff, Decidable.not_not]

theorem texts_textList (names : List String) : (textList names).toJson.texts = names := by
  induction names with
  | nil => rfl
  | cons name names ih =>
    show name :: (textList names).toJson.texts = _
    rw [ih]

theorem isOfType_string_iff {k : Kind} {v : Json} :
    isOfType v (.string k.typeName) = true ↔ v.kind = k := by
  rw [isOfType]
  cases k <;> cases v.kind <;> decide

/-- Nothing meets the schema `false`, at any depth. -/
theorem valid_boolean_false : valid root depth (.boolean false) v = false := by
  cases depth <;> rfl

/-- The keywords of a record's schema can be looked up in either order. -/
theorem recordSchema_keywords (order : RecordOrder) (description : Option String) (closed : Bool)
    (properties : List (String × Datum)) (required : List String) :
    let keywords :=
      Datum.membersToJson (recordSchema order description closed (.record properties) required)
    Json.lookup? "$ref" keywords = none ∧
    Json.lookup? "type" keywords = some (.string Kind.object.typeName) ∧
    Json.lookup? "oneOf" keywords = none ∧
    Json.lookup? "properties" keywords = some (.object (Datum.membersToJson properties)) ∧
    Json.lookup? "additionalProperties" keywords =
      (if closed then some (.boolean false) else none) ∧
    Json.lookup? "required" keywords =
      (if required.isEmpty then none else some (textList required).toJson) := by
  cases order <;> cases description <;> cases closed <;> cases required <;>
    simp [recordSchema, optionalMember, Datum.membersToJson, Datum.toJson, Json.lookup?,
      Kind.typeName]

theorem valid_recordSchema_iff (order : RecordOrder) (description : Option String)
    (closed : Bool) (properties : List (String × Datum)) (required : List String) :
    valid root (depth + 1)
        (Datum.record
          (recordSchema order description closed (.record properties) required)).toJson v = true ↔
      v.kind = .object ∧
      (∀ m ∈ v.members, ∀ s, Json.lookup? m.1 (Datum.membersToJson properties) = some s →
        valid root depth s m.2 = true) ∧
      (closed = true → ∀ m ∈ v.members, m.1 ∈ properties.map Prod.fst) ∧
      ∀ name ∈ required, name ∈ v.members.map Prod.fst := by
  obtain ⟨href, htype, honeOf, hproperties, hadditional, hrequired⟩ :=
    recordSchema_keywords order description closed properties required
  rw [Datum.toJson, valid]
  simp only [href, htype, honeOf, hproperties, hadditional, hrequired, Option.all_none,
    Option.all_some, Bool.true_and, Bool.and_true, Bool.and_eq_true, isOfType_string_iff,
    Option.getD_some, Json.members, Option.all_eq_true, and_assoc, List.all_eq_true]
  refine and_congr_right fun hobject => and_congr Iff.rfl (and_congr ?_ ?_)
  · cases closed with
    | false => simp
    | true => simp [isSome_lookup?_iff, valid_boolean_false, Datum.map_fst_membersToJson]
  · cases required with
    | nil => simp
    | cons name names => simp [texts_textList, hobject, isSome_lookup?_iff]

end TypeSchema

end Untagged
