import Untagged.Finding
import Untagged.Json.Writer

/-!
# Reports

What a command says about a document for programs to read: whether it succeeded,
with the variant, the value and the findings, or with the error.
-/

namespace Untagged

/-- The outcome of decoding a document. -/
structure Report where
  success : Bool
  union : String
  input : String
  variant : Option String
  value : Option Json
  findings : List Finding
  error : Option String

namespace Report

/-- The report of a decoded document.  One with findings is no success. -/
def ofValue (union input variant : String) (value : Json) (findings : List Finding) : Report where
  success := findings.isEmpty
  union := union
  input := input
  variant := some variant
  value := some value
  findings := findings
  error := none

/-- The report of a document that cannot be decoded. -/
def ofError (union input error : String) : Report where
  success := false
  union := union
  input := input
  variant := none
  value := none
  findings := []
  error := some error

/-- A member that is left out where there is nothing to say. -/
def optional (name : String) (d : Option Datum) : List (String × Datum) :=
  match d with
  | some d => [(name, d)]
  | none => []

/-- The report as data.  What is absent is left out, and so are findings where there
are none. -/
def toDatum (r : Report) : Datum :=
  .record <|
    [("success", .boolean r.success), ("union", .string r.union), ("input", .string r.input)]
    ++ optional "variant" (r.variant.map .string)
    ++ optional "value" (r.value.map .ofJson)
    ++ optional "findings"
        (if r.findings.isEmpty then none else some (.sequence (r.findings.map Finding.toDatum)))
    ++ optional "error" (r.error.map .string)

end Report

end Untagged
