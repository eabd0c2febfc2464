import Untagged.Shape.Record
import Untagged.Union

/-!
# Overlapping variants

Unions whose variants accept some of the same documents, so that the declared
order shows: a thing with a name, and a thing with a name and perhaps a label.
`namedFirst` tries the plain thing first, `labeledFirst` the labelled one.
`tracked` has the plain thing alone.
-/

namespace Untagged

structure Named where
  name : String
  deriving DecidableEq, Repr

structure Labeled where
  name : String
  label : Option String
  deriving DecidableEq, Repr

namespace Named

/-- The record of a name, under the record's own name. -/
def record (recordName : String) : Record Named where
  name := recordName
  description := none
  closed := false
  members := [.required "name" .string Named.name fun n a => { a with name := n }]
  blank := ⟨""⟩

end Named

namespace Labeled

/-- The record of a name and a label, under the record's own name. -/
def record (recordName : String) : Record Labeled where
  name := recordName
  description := none
  closed := false
  members := [
    .required "name" .string Labeled.name fun n a => { a with name := n },
    .defaulted "label" .string Labeled.label fun l a => { a with label := l }]
  blank := ⟨"", none⟩

end Labeled

inductive Naming where
  | plain (a : Named)
  | labeled (a : Labeled)
  deriving DecidableEq, Repr

namespace Naming

/-- What is written for a thing, where the records have the given names. -/
def encode (plainName labeledName : String) : Naming → Datum
  | plain a => (Named.record plainName).encode a
  | labeled a => (Labeled.record labeledName).encode a

/-- The name of the variant, where the variants have the given names. -/
def variantName (plainName labeledName : String) : Naming → String
  | plain _ => plainName
  | labeled _ => labeledName

end Naming

/-- The plain thing is tried first, and hides the labelled one for every object. -/
def namedFirst : Union Naming where
  name := "NamedFirst"
  candidates := [
    .ofShape "Named" (Named.record "Named").shape .plain,
    .ofShape "Labeled" (Labeled.record "Labeled").shape .labeled]
  variantName := Naming.variantName "Named" "Labeled"
  encode := Naming.encode "Named" "Labeled"
  schemas := [(Named.record "Named").schema, (Labeled.record "Labeled").schema]
  same a b := a == b

/-- The labelled thing is tried first. -/
def labeledFirst : Union Naming where
  name := "LabeledFirst"
  candidates := [
    .ofShape "Note" (Labeled.record "Note").shape .labeled,
    .ofShape "Tag" (Named.record "Tag").shape .plain]
  variantName := Naming.variantName "Tag" "Note"
  encode := Naming.encode "Tag" "Note"
  schemas := [(Labeled.record "Note").schema, (Named.record "Tag").schema]
  same a b := a == b

def tracked : Union Named where
  name := "Tracked"
  candidates := [.ofShape "Named" (Named.record "Named").shape id]
  variantName _ := "Named"
  encode := (Named.record "Named").encode
  schemas := [(Named.record "Named").schema]
  same a b := a == b

end Untagged
