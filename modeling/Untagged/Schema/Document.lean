import Untagged.Json.Writer
import Untagged.Schema.Definitions

/-!
# Schema documents

Schemas as data.  A document for one type has its outline at the top and the
definitions that it needs below; the definitions can also be written on their own,
for any number of types.  The two differ in the order of a record's members, which
a `RecordOrder` says.
-/

namespace Untagged

/-- In which order the members of a record's schema are written. -/
inductive RecordOrder where
  /-- Description, type, properties, what else is allowed, what is required. -/
  | ofDocument
  /-- Type, what else is allowed, properties, what is required, description. -/
  | ofDefinitions
  deriving DecidableEq, Repr

namespace TypeSchema

/-- The dialect that the documents are written in. -/
def dialect : String := "https://json-schema.org/draft/2020-12/schema"

/-- Some names as data. -/
def textList (names : List String) : Datum := .sequence (names.map Datum.string)

/-- A number as data. -/
def smallNumber (n : UInt8) : Datum := .integer (.ofUInt8 n)

/-- The reference to a definition. -/
def reference (name : String) : Datum := .record [("$ref", .string ("#/$defs/" ++ name))]

/-- The schema of a type whose values may also be `null`: a further type where the
schema starts with one, and an alternative where it does not. -/
def orNull : List (String × Datum) → List (String × Datum)
  | ("type", .string t) :: rest => ("type", textList [t, "null"]) :: rest
  | schema =>
    [("anyOf", .sequence [.record schema, .record [("type", .string "null")]])]

/-- A member of a record's schema that is left out where there is nothing to
write. -/
def optionalMember (name : String) (d : Option Datum) : List (String × Datum) :=
  match d with
  | some d => [(name, d)]
  | none => []

/-- The names of the members that must be there. -/
def requiredNames (members : List (String × Presence × TypeSchema)) : List String :=
  (members.filter fun m => m.2.1 = .required).map Prod.fst

/-- The schema of a record with the given properties. -/
def recordSchema (order : RecordOrder) (description : Option String) (closed : Bool)
    (properties : Datum) (required : List String) : List (String × Datum) :=
  let description := optionalMember "description" (description.map .string)
  let others :=
    optionalMember "additionalProperties" (if closed then some (.boolean false) else none)
  let required :=
    optionalMember "required" (if required.isEmpty then none else some (textList required))
  match order with
  | .ofDocument =>
    description ++ ("type", .string "object") :: ("properties", properties) :: others ++ required
  | .ofDefinitions =>
    ("type", .string "object") :: others ++ ("properties", properties) :: required ++ description

mutual

/-- The members of a type's schema.  A named type is a reference. -/
def schemaMembers (order : RecordOrder) : TypeSchema → List (String × Datum)
  | string => [("type", .string "string")]
  | boolean => [("type", .string "boolean")]
  | double => [("type", .string "number"), ("format", .string "double")]
  | int64 => [("type", .string "integer"), ("format", .string "int64")]
  | uint8 =>
    [("type", .string "integer"), ("format", .string "uint8"), ("minimum", smallNumber 0),
      ("maximum", smallNumber 255)]
  | uint64 =>
    [("type", .string "integer"), ("format", .string "uint64"), ("minimum", smallNumber 0)]
  | list item => [("type", .string "array"), ("items", .record (schemaMembers order item))]
  | option inner => orNull (schemaMembers order inner)
  | record description closed members =>
    recordSchema order description closed (.record (properties order members))
      (requiredNames members)
  | union title variants =>
    [("title", .string title), ("oneOf", .sequence (alternatives order variants))]
  | named name _ => [("$ref", .string ("#/$defs/" ++ name))]

/-- The properties of a record.  An absent member that is written as `null` says
so. -/
def properties (order : RecordOrder) :
    List (String × Presence × TypeSchema) → List (String × Datum)
  | [] => []
  | (name, presence, schema) :: rest =>
    (name, .record (schemaMembers order schema
        ++ if presence = .defaulted then [("default", .null)] else []))
      :: properties order rest

/-- The alternatives of a union. -/
def alternatives (order : RecordOrder) : List TypeSchema → List Datum
  | [] => []
  | schema :: rest => .record (schemaMembers order schema) :: alternatives order rest

end

/-- Definitions as data. -/
def definitionsDatum (order : RecordOrder) (defs : Definitions) : Datum :=
  .record (defs.map fun d => (d.1, .record (schemaMembers order d.2)))

/-- The outline of a type without its name. -/
def outline : TypeSchema → TypeSchema
  | named _ body => body
  | schema => schema

/-- The document of one type: its outline, and below it the definitions that it
needs. -/
def document (schema : TypeSchema) : Datum :=
  let defs := collect schema.outline []
  .record <|
    ("$schema", .string dialect) :: schemaMembers .ofDocument schema.outline
      ++ if defs.isEmpty then [] else [("$defs", definitionsDatum .ofDocument defs)]

/-- Asks for some types in turn: the reference to each and all definitions that
they need. -/
def request (schemas : List TypeSchema) : List Datum × Definitions :=
  (schemas.map fun s => .record (schemaMembers .ofDefinitions s), collectAll schemas [])

end TypeSchema

end Untagged
