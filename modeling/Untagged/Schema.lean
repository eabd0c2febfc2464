import Untagged.Json.Datum

/-!
# Type schemas

A `TypeSchema` is the outline of a type: what its values are in JSON, for readers
who do not have the decoder.  Named types refer to their definition.  `Schema.Definitions`
(in `Schema/Definitions`) collects the definitions, and `Schema/Document` writes
them.

A named type carries its body, so an outline is a finite tree.  A type that uses itself,
directly or through others, has no outline: it would be one that contains itself.
-/

namespace Untagged

/-- How a member takes part in a record. -/
inductive Presence where
  | required
  /-- May be absent; an absent one is not written. -/
  | omitted
  /-- May be absent; an absent one is written as `null`. -/
  | defaulted
  /-- May be absent from an object, not from an array; an absent one is written as
  `null`. -/
  | nullable
  deriving DecidableEq, Repr

/-- The outline of a type. -/
inductive TypeSchema where
  | string
  | boolean
  | double
  | int64
  | uint8
  | uint64
  | list (item : TypeSchema)
  | option (inner : TypeSchema)
  | record (description : Option String) (closed : Bool)
      (members : List (String × Presence × TypeSchema))
  | union (title : String) (variants : List TypeSchema)
  /-- A type with a definition of its own. -/
  | named (name : String) (body : TypeSchema)

end Untagged
