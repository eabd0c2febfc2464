import Untagged.Unions.Measures
import Untagged.Unions.Named
import Untagged.Unions.Parcel
import Untagged.Unions.Series

/-!
# The catalogue

All unions of the library by name, each with a way to construct a variant without
a trial: from the name of the variant and its fields.  Fields are read by that
variant's own decoder; only fruit requests are put together member by member, so
that a length may also be given as the text of a number that JSON does not have.
-/

namespace Untagged

/-- Why a variant cannot be constructed. -/
inductive BuildError where
  | noSuchVariant (name : String)
  | rejected (r : Rejection)

namespace BuildError

def message : BuildError → String
  | noSuchVariant name => "no such variant " ++ name
  | rejected r => r.message

end BuildError

namespace Union

/-- Constructs a variant by its own decoder. -/
def construct {α : Type} (u : Union α) (variant : String) (fields : Json) : Except BuildError α :=
  match u.candidates.find? fun c => c.name = variant with
  | none => .error (.noSuchVariant variant)
  | some c => (c.decode fields).outcome.mapError .rejected

end Union

namespace FruitVariant

/-- A boolean among some fields. -/
def booleanField? (name : String) (fields : Json) : Option Bool :=
  match Json.lookup? name fields.members with
  | some (.boolean b) => some b
  | _ => none

/-- A length among some fields: a number, or a text that is one. -/
def lengthField (name : String) (fields : Json) : Double :=
  match Json.lookup? name fields.members with
  | some (.number n) => n.toDouble
  | some (.string s) => (Double.ofText? s).getD .zero
  | _ => .zero

/-- A text among some fields. -/
def textField (name : String) (fields : Json) : String :=
  match Json.lookup? name fields.members with
  | some (.string s) => s
  | _ => ""

/-- Puts a fruit request together from its members. -/
def construct (variant : String) (fields : Json) : Except BuildError FruitVariant :=
  if variant = "AppleReq" then
    .ok (.apple ⟨textField "cultivar" fields, booleanField? "mealy" fields⟩)
  else if variant = "BananaReq" then
    .ok (.banana ⟨lengthField "lengthCm" fields, booleanField? "sweet" fields⟩)
  else .error (.noSuchVariant variant)

end FruitVariant

/-- A union of the catalogue. -/
structure Entry (α : Type) where
  union : Union α
  construct : String → Json → Except BuildError α
  /-- Whether the union keeps the properties that it is shown. -/
  keepsProperties : Bool

namespace Entry

/-- An entry whose variants are constructed by their decoders. -/
def ofUnion {α : Type} (u : Union α) : Entry α := ⟨u, u.construct, false⟩

end Entry

namespace Catalogue

/-- Hands the union of the given name to `use`. -/
def withEntry {ρ : Type} (name : String) (use : {α : Type} → Entry α → ρ) : Option ρ :=
  match name with
  | "FruitReq" => some (use ⟨fruitReq, FruitVariant.construct, false⟩)
  | "NamedFirst" => some (use (.ofUnion namedFirst))
  | "LabeledFirst" => some (use (.ofUnion labeledFirst))
  | "Series" => some (use (.ofUnion series))
  | "Tracked" => some (use ⟨tracked, tracked.construct, true⟩)
  | "Order" => some (use (.ofUnion order))
  | "Bounds" => some (use (.ofUnion bounds))
  | "Width" => some (use (.ofUnion width))
  | "Parcel" => some (use (.ofUnion parcel))
  | _ => none

/-- The schema of the union of the given name. -/
def schema? (name : String) : Option TypeSchema := withEntry name fun e => e.union.schema

end Catalogue

end Untagged
