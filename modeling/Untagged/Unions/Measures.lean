import Untagged.Shape.Record
import Untagged.Union

/-!
# Measures

Unions over numbers.  `order` and `bounds` have values that decode and still have
findings; `width` tries ever wider types for the same member.
-/

namespace Untagged

/-- An amount, which should not be negative. -/
structure Quantity where
  amount : Int64
  deriving DecidableEq, Repr

namespace Quantity

def record : Record Quantity where
  name := "Quantity"
  description := none
  closed := false
  members := [.required "amount" .int64 Quantity.amount fun n q => { q with amount := n }]
  blank := ⟨0⟩

def findings (q : Quantity) : List Finding :=
  if q.amount < 0 then [.ofMember "amount" "must not be negative"] else []

end Quantity

/-- A range of numbers, which should lie between 0 and 100. -/
structure Range where
  min : Int64
  max : Int64
  deriving DecidableEq, Repr

namespace Range

def record : Record Range where
  name := "Range"
  description := none
  closed := false
  members := [
    .required "min" .int64 Range.min fun n r => { r with min := n },
    .required "max" .int64 Range.max fun n r => { r with max := n }]
  blank := ⟨0, 0⟩

def findings (r : Range) : List Finding :=
  (if r.min < 0 then [.ofMember "min" "must not be negative"] else [])
    ++ (if 100 < r.max then [.ofMember "max" "must not exceed 100"] else [])
    ++ (if r.max < r.min then [.ofValue "min exceeds max"] else [])

end Range

/-- Orders: an amount alone, validated. -/
def order : Union Quantity where
  name := "Order"
  candidates := [.ofShape "Quantity" Quantity.record.shape id]
  variantName _ := "Quantity"
  encode := Quantity.record.encode
  schemas := [Quantity.record.schema]
  same a b := a == b
  findings := Quantity.findings

inductive BoundsVariant where
  | range (r : Range)
  | quantity (q : Quantity)
  deriving DecidableEq, Repr

namespace BoundsVariant

def name : BoundsVariant → String
  | range _ => "Range"
  | quantity _ => "Quantity"

def encode : BoundsVariant → Datum
  | range r => Range.record.encode r
  | quantity q => Quantity.record.encode q

/-- Only ranges have findings here. -/
def findings : BoundsVariant → List Finding
  | range r => r.findings
  | quantity _ => []

end BoundsVariant

def bounds : Union BoundsVariant where
  name := "Bounds"
  candidates := [
    .ofShape "Range" Range.record.shape .range,
    .ofShape "Quantity" Quantity.record.shape .quantity]
  variantName := BoundsVariant.name
  encode := BoundsVariant.encode
  schemas := [Range.record.schema, Quantity.record.schema]
  same a b := a == b
  findings := BoundsVariant.findings

/-- A record of one number, called `n`. -/
def numberRecord {α : Type} (name : String) (shape : Shape α) (blank : α) : Record α where
  name := name
  description := none
  closed := false
  members := [.required "n" shape id fun n _ => n]
  blank := blank

inductive WidthVariant where
  | byte (n : UInt8)
  | signed (n : Int64)
  | unsigned (n : UInt64)
  | float (n : Double)
  deriving DecidableEq, Repr

namespace WidthVariant

def byteRecord : Record UInt8 := numberRecord "Byte" .uint8 0

def signedRecord : Record Int64 := numberRecord "Signed" .int64 0

def unsignedRecord : Record UInt64 := numberRecord "Unsigned" .uint64 0

def floatRecord : Record Double := numberRecord "Float" .double .zero

def name : WidthVariant → String
  | byte _ => "Byte"
  | signed _ => "Signed"
  | unsigned _ => "Unsigned"
  | float _ => "Float"

def encode : WidthVariant → Datum
  | byte n => byteRecord.encode n
  | signed n => signedRecord.encode n
  | unsigned n => unsignedRecord.encode n
  | float n => floatRecord.encode n

def same : WidthVariant → WidthVariant → Bool
  | float a, float b => a.equal b
  | a, b => a == b

end WidthVariant

def width : Union WidthVariant where
  name := "Width"
  candidates := [
    .ofShape "Byte" WidthVariant.byteRecord.shape .byte,
    .ofShape "Signed" WidthVariant.signedRecord.shape .signed,
    .ofShape "Unsigned" WidthVariant.unsignedRecord.shape .unsigned,
    .ofShape "Float" WidthVariant.floatRecord.shape .float]
  variantName := WidthVariant.name
  encode := WidthVariant.encode
  schemas := [WidthVariant.byteRecord.schema, WidthVariant.signedRecord.schema,
    WidthVariant.unsignedRecord.schema, WidthVariant.floatRecord.schema]
  same := WidthVariant.same

end Untagged
