import Untagged.CommandLine.Switch
import Untagged.Config

/-!
# Help texts

The help on a topic: what it is about, how it is used, and its subcommands and
switches in two columns.
-/

namespace Untagged.CommandLine

/-- The name of the program. -/
def programName : String := "oneof"

/-- The name of the program with its version. -/
def versionText : String := programName ++ " 0.2.0"

/-- What a subcommand does. -/
def Subcommand.about : Subcommand → String
  | decode => "Decode a document and print the matched variant"
  | validate => "Decode a document and report validation findings"
  | schema => "Generate JSON Schema for a union"
  | help => "Print this message or the help of the given subcommand(s)"

namespace Topic

/-- What a topic is about. -/
def about : Topic → String
  | program => "Decode, validate and describe oneOf union documents"
  | subcommand s => s.about

/-- How a topic is used. -/
def usage : Topic → String
  | program => programName ++ " [OPTIONS] <COMMAND>"
  | subcommand .help => programName ++ " help [COMMAND]..."
  | subcommand .schema => programName ++ " schema [OPTIONS]"
  | subcommand s => programName ++ " " ++ s.name ++ " [OPTIONS] " ++ Switch.input.display

end Topic

/-- The unions that can be asked for. -/
def choiceNote : String :=
  " [default: " ++ UnionChoice.default.value ++ "] [possible values: "
    ++ String.intercalate ", " (UnionChoice.all.map UnionChoice.value) ++ "]"

/-- What a switch is for. -/
def Switch.about (topic : Topic) : Switch → String
  | config =>
    "Configuration file (missing file means defaults) [default: " ++ Config.defaultPath ++ "]"
  | input => "Path to the JSON document"
  | union =>
    (if topic = .subcommand .schema then "Union to describe" else "Union to decode as")
      ++ choiceNote
  | output => "Output file path (optional)"
  | json => "Print a machine-readable JSON result"
  | help => "Print help"
  | version => "Print version"

/-- How a switch is written. -/
def Switch.forms (s : Switch) : String :=
  s.short?.elim "    " (fun c => "-" ++ c.toString ++ ", ") ++ s.display

/-- Rows in two columns under a title; nothing where there are no rows. -/
def twoColumns (title : String) (rows : List (String × String)) : String :=
  let width := (rows.map fun r => r.1.length).foldl max 0
  let row (r : String × String) : String :=
    "  " ++ r.1 ++ String.ofList (List.replicate (width - r.1.length) ' ') ++ "  " ++ r.2 ++ "\n"
  if rows.isEmpty then "" else "\n" ++ title ++ ":\n" ++ String.join (rows.map row)

namespace Topic

/-- The subcommands of a topic. -/
def subcommandRows : Topic → List (String × String)
  | program => Subcommand.all.map fun s => (s.name, s.about)
  | subcommand _ => []

/-- The arguments of a topic that are not switches. -/
def argumentRows : Topic → List (String × String)
  | subcommand .help => [("[COMMAND]...", "Print help for the subcommand(s)")]
  | _ => []

/-- The switches of a topic. -/
def switchRows (t : Topic) : List (String × String) :=
  t.switches.map fun s => (s.forms, s.about t)

/-- The help on a topic. -/
def help (t : Topic) : String :=
  t.about ++ "\n\nUsage: " ++ t.usage ++ "\n" ++ twoColumns "Commands" t.subcommandRows
    ++ twoColumns "Arguments" t.argumentRows ++ twoColumns "Options" t.switchRows

end Topic

end Untagged.CommandLine
