import Untagged.Attempt
import Untagged.Schema

/-!
# Shapes

A `Shape` describes a type by how its values are read from a JSON value, how they
are written, and its schema.  The shapes of scalars, lists and optional values are
here; records are in `Shape/Record`, and a union is a shape through
`Union.shape`.
-/

namespace Untagged

/-- How values of a type are read and written. -/
structure Shape (α : Type) where
  decode : Json → Attempt Rejection α
  encode : α → Datum
  schema : TypeSchema

namespace Shape

/-- Rejects a value that is not of the expected type. -/
def mismatch {α : Type} (v : Json) (expected : Expected) : Attempt Rejection α :=
  .fail (.invalidType (.ofJson v) expected)

def string : Shape String where
  decode
    | .string s => .succeed s
    | v => mismatch v .string
  encode := .string
  schema := .string

def boolean : Shape Bool where
  decode
    | .boolean b => .succeed b
    | v => mismatch v .boolean
  encode := .boolean
  schema := .boolean

/-- Any number, as the nearest binary64 number. -/
def double : Shape Double where
  decode
    | .number n => .succeed n.toDouble
    | v => mismatch v .double
  encode := .float
  schema := .double

/-- An integer for which `ofInteger?` has a value. -/
def decodeInteger {α : Type} (expected : Expected) (ofInteger? : Int → Option α) :
    Json → Attempt Rejection α
  | .number (.integer i) =>
    match ofInteger? i.val with
    | some a => .succeed a
    | none => .fail (.invalidInteger i expected)
  | v => mismatch v expected

def int64? (i : Int) : Option Int64 :=
  if -0x8000_0000_0000_0000 ≤ i ∧ i ≤ 0x7fff_ffff_ffff_ffff then some (Int64.ofInt i)
  else none

def uint64? (i : Int) : Option UInt64 :=
  if 0 ≤ i ∧ i ≤ 0xffff_ffff_ffff_ffff then some (UInt64.ofNat i.toNat) else none

def uint8? (i : Int) : Option UInt8 :=
  if 0 ≤ i ∧ i ≤ 0xff then some (UInt8.ofNat i.toNat) else none

/-- An integer between `-2 ^ 63` and `2 ^ 63 - 1`, written without fraction and
exponent. -/
def int64 : Shape Int64 where
  decode := decodeInteger .int64 int64?
  encode i := .integer (.ofInt64 i)
  schema := .int64

/-- An integer between 0 and `2 ^ 64 - 1`, written without fraction and
exponent. -/
def uint64 : Shape UInt64 where
  decode := decodeInteger .uint64 uint64?
  encode n := .integer (.ofUInt64 n)
  schema := .uint64

/-- An integer between 0 and 255, written without fraction and exponent. -/
def uint8 : Shape UInt8 where
  decode := decodeInteger .uint8 uint8?
  encode n := .integer (.ofUInt8 n)
  schema := .uint8

/-- Reads the items of an array one after the other, up to the first that is
rejected. -/
def decodeItems {α : Type} (decode : Json → Attempt Rejection α) :
    List Json → Attempt Rejection (List α)
  | [] => .succeed []
  | v :: vs =>
    (decode v).andThen fun a => (decodeItems decode vs).map (a :: ·)

/-- An array of items of one shape. -/
def list {α : Type} (item : Shape α) : Shape (List α) where
  decode
    | .array vs => decodeItems item.decode vs
    | v => mismatch v .sequence
  encode items := .sequence (items.map item.encode)
  schema := .list item.schema

/-- A value of a shape, or `null`. -/
def option {α : Type} (inner : Shape α) : Shape (Option α) where
  decode
    | .null => .succeed none
    | v => (inner.decode v).map some
  encode
    | some a => inner.encode a
    | none => .null
  schema := .option inner.schema

/-- The same shape for a type that wraps another one. -/
def wrapped {α β : Type} (inner : Shape α) (wrap : α → β) (unwrap : β → α) : Shape β where
  decode v := (inner.decode v).map wrap
  encode b := inner.encode (unwrap b)
  schema := inner.schema

/-- The same shape under a name, with a definition of its own in schemas. -/
def withName {α : Type} (name : String) (shape : Shape α) : Shape α where
  decode := shape.decode
  encode := shape.encode
  schema := .named name shape.schema

end Shape

end Untagged
