import Untagged.Config
import Untagged.Json.DirectRecord

/-!
# Configurations in JSON

A configuration is read straight from the text.  Every record of it may also be an
array of its fields.
-/

namespace Untagged

open Json (Failure)
open Json.Direct (FieldReader)

/-- The fields of the output section. -/
def OutputConfig.fields : List (FieldReader OutputConfig) :=
  [⟨"pretty", fun o s => do
    let (pretty, rest) ← Json.Direct.boolean s
    .ok ({ o with pretty := pretty }, rest)⟩]

/-- The fields of the logging section. -/
def LoggingConfig.fields : List (FieldReader LoggingConfig) :=
  [⟨"filter", fun l s => do
    let (filter, rest) ← Json.Direct.string s
    .ok ({ l with filter := filter }, rest)⟩]

namespace Config

/-- The sections. -/
def fields : List (FieldReader Config) :=
  [⟨"output", fun c s => do
      let (output, rest) ← Json.Direct.record "OutputSection" OutputConfig.fields {} s
      .ok ({ c with output := output }, rest)⟩,
    ⟨"logging", fun c s => do
      let (logging, rest) ← Json.Direct.record "LoggingSection" LoggingConfig.fields {} s
      .ok ({ c with logging := logging }, rest)⟩]

/-- The configuration of a JSON text. -/
def ofJsonText (text : String) : Except Failure Config :=
  Json.Direct.document "OneofConfig" fields default text

/-- The configuration as data. -/
def toDatum (c : Config) : Datum :=
  .record [("output", .record [("pretty", .boolean c.output.pretty)]),
    ("logging", .record [("filter", .string c.logging.filter)])]

end Config

end Untagged
