import Untagged.Config
import Untagged.Load
import Untagged.Report
import Untagged.Schema.Document

/-!
# Commands

What the program can be asked to do with a union: decode a document, validate one,
or print the schema.  A command prints its results and says whether the document was
accepted.  With `json`, results and errors are reports for programs; otherwise they
are for people, errors apart from results.
-/

namespace Untagged

/-- What the program is asked to do. -/
inductive Command where
  | decode (input : String) (union : UnionChoice) (json : Bool)
  | validate (input : String) (union : UnionChoice) (json : Bool)
  /-- Prints the schema, or writes it to a file. -/
  | schema (union : UnionChoice) (output : Option String)
  deriving DecidableEq, Repr

/-- What a command says about its document. -/
inductive Verdict where
  | accepted
  | refused
  deriving DecidableEq, Repr

/-- The failure to write a file. -/
structure WriteError where
  path : String
  reason : FileError
  deriving DecidableEq, Repr

namespace WriteError

def message (e : WriteError) : String :=
  "Failed to write " ++ Text.quotedPath e.path ++ ": " ++ e.reason.message

end WriteError

/-- What a command did. -/
structure CommandResult where
  log : List Event := []
  stdout : String := ""
  stderr : String := ""
  verdict : Except WriteError Verdict := .ok .accepted

namespace CommandResult

/-- A text as a line. -/
def line (s : String) : String := s ++ "\n"

/-- A datum as a line. -/
def datumLine (pretty : Bool) (d : Datum) : String := line (d.text pretty)

end CommandResult

namespace Command

open CommandResult (line datumLine)

variable {m : Type → Type} [Monad m] [FileSystem m]

/-- Loads the document of a command, and tells what it is. -/
def loadInput (input : String) (union : UnionChoice) (pretty : Bool) :
    m (Attempt LoadError LoadedValue) := do
  return (← union.load input pretty).andThen fun d =>
    (Attempt.succeed d).telling [.decoded input union.name d.variant]

/-- The line of a report on a document that is not loaded. -/
def errorReport (input : String) (union : UnionChoice) (pretty : Bool) (e : LoadError) : String :=
  datumLine pretty (Report.ofError union.name input e.message).toDatum

/-- The line of a report on a decoded document. -/
def valueReport (input : String) (union : UnionChoice) (pretty : Bool) (d : LoadedValue)
    (findings : List Finding) : String :=
  datumLine pretty (Report.ofValue union.name input d.variant d.value findings).toDatum

/-- What decoding prints. -/
def decodeResult (input : String) (union : UnionChoice) (json pretty : Bool)
    (attempt : Attempt LoadError LoadedValue) : CommandResult :=
  match attempt.outcome with
  | .ok d =>
    { log := attempt.log
      stdout :=
        if json then valueReport input union pretty d []
        else line (union.name ++ " -> " ++ d.variant) ++ line d.rendered }
  | .error e =>
    { log := attempt.log
      stdout := if json then errorReport input union pretty e else ""
      stderr := if json then "" else line e.message
      verdict := .ok .refused }

/-- What validation prints for people about a decoded document. -/
def findingLines (input : String) (union : UnionChoice) (d : LoadedValue) : String :=
  let subject := union.name ++ "(" ++ d.variant ++ ")"
  if d.findings.isEmpty then line (input ++ ": valid " ++ subject)
  else
    line (input ++ ": " ++ toString d.findings.length ++ " finding(s) for " ++ subject)
      ++ String.join (d.findings.map fun f => line ("  - " ++ f.display))

/-- What validation prints.  A document with findings is refused. -/
def validateResult (input : String) (union : UnionChoice) (json pretty : Bool)
    (attempt : Attempt LoadError LoadedValue) : CommandResult :=
  match attempt.outcome with
  | .ok d =>
    { log := attempt.log ++ d.findings.map (.found input)
      stdout :=
        if json then valueReport input union pretty d d.findings else findingLines input union d
      verdict := .ok (if d.findings.isEmpty then .accepted else .refused) }
  | .error e =>
    { log := attempt.log
      stdout := if json then errorReport input union pretty e else ""
      stderr := if json then "" else line ("Invalid " ++ input ++ ": " ++ e.message)
      verdict := .ok .refused }

/-- The schema of a union as text. -/
def schemaText (union : UnionChoice) : String := (TypeSchema.document union.schema).prettyText

/-- Carries out a command. -/
def perform (config : Config) : Command → m CommandResult
  | decode input union json => do
    let pretty := config.output.pretty
    return decodeResult input union json pretty (← loadInput input union pretty)
  | validate input union json => do
    let pretty := config.output.pretty
    return validateResult input union json pretty (← loadInput input union pretty)
  | schema union none => return { stdout := line (schemaText union) }
  | schema union (some path) => do
    match ← FileSystem.writeText path (schemaText union) with
    | .ok () => return {}
    | .error e => return { verdict := .error ⟨path, e⟩ }

end Command

end Untagged
