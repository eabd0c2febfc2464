import Untagged.Command
import Untagged.CommandLine.Help

/-!
# Reading the command line

The arguments are read from left to right.  A value that follows its switch as an
argument of its own is only checked when the next switch is met, or at the end; so
an argument in between that is out of place is reported first.  Two dashes end the
switches.

The first argument that is the name of a subcommand hands over to it, and what is
wrong behind it is reported before a value in front of it is checked.
-/

namespace Untagged.CommandLine

/-- What is wrong with the arguments. -/
inductive UsageError where
  | unexpectedArgument (argument : String)
  | unknownSubcommand (name : String)
  | noSubcommand
  | noValue (s : Switch)
  | repeated (s : Switch)
  | surplusValue (s : Switch) (value : String)
  | unknownUnion (value : String)
  | missing (s : Switch)
  deriving DecidableEq, Repr

namespace UsageError

/-- A text in single quotes. -/
def inQuotes (s : String) : String := "'" ++ s ++ "'"

def message : UsageError → String
  | unexpectedArgument a => "unexpected argument " ++ inQuotes a ++ " found"
  | unknownSubcommand name => "unrecognized subcommand " ++ inQuotes name
  | noSubcommand => inQuotes programName ++ " requires a subcommand but one was not provided"
  | noValue s => "a value is required for " ++ inQuotes s.display ++ " but none was supplied"
  | repeated s => "the argument " ++ inQuotes s.display ++ " cannot be used multiple times"
  | surplusValue s value =>
    "unexpected value " ++ inQuotes value ++ " for " ++ inQuotes s.display
      ++ " found; no more were expected"
  | unknownUnion value =>
    "invalid value " ++ inQuotes value ++ " for " ++ inQuotes Switch.union.display
  | missing s => "the following required arguments were not provided:\n  " ++ s.display

end UsageError

/-- Why the arguments ask for nothing to be done. -/
inductive Stop where
  | help (topic : Topic)
  | version
  /-- There are no arguments. -/
  | nothingAsked
  | misused (e : UsageError)
  deriving DecidableEq, Repr

/-- What has been read of the arguments of one topic. -/
structure Reading where
  given : List (Switch × String) := []
  /-- The last switch with a value of its own argument, which may still be to come. -/
  pending : Option (Switch × Option String) := none
  /-- Whether the switches have ended. -/
  ended : Bool := false
  deriving DecidableEq, Repr

namespace Reading

/-- Whether a value may be given to a switch. -/
def checkValue (s : Switch) (value : String) : Except Stop Unit :=
  if value = "" then .error (.misused (.noValue s))
  else if s = .union && (UnionChoice.parse? false value).isNone then
    .error (.misused (.unknownUnion value))
  else .ok ()

/-- Records a switch, which may be given once. -/
def take (r : Reading) (s : Switch) (value : String) : Except Stop Reading := do
  if (r.given.lookup s).isSome then .error (.misused (.repeated s))
  else
    checkValue s value
    .ok { r with given := r.given ++ [(s, value)] }

/-- Records the pending switch. -/
def settle (r : Reading) : Except Stop Reading :=
  match r.pending with
  | none => .ok r
  | some (s, none) => .error (.misused (.noValue s))
  | some (s, some value) => { r with pending := none }.take s value

/-- Whether the next argument may be the value of the pending switch. -/
def isAwaiting (r : Reading) : Bool :=
  match r.pending with
  | some (_, none) => true
  | _ => false

/-- Meets a switch that takes no value. -/
def meet (topic : Topic) (r : Reading) (s : Switch) : Except Stop Reading := do
  let r ← r.settle
  match s with
  | .help => .error (.help topic)
  | .version => .error .version
  | s => r.take s "true"

/-- Meets a switch that takes a value, given with it or not. -/
def meetWith (r : Reading) (s : Switch) (value : Option String) : Except Stop Reading := do
  let r ← r.settle
  match value with
  | some v => r.take s v
  | none => .ok { r with pending := some (s, none) }

/-- An argument behind two dashes. -/
def long (topic : Topic) (r : Reading) (body : List Char) : Except Stop Reading :=
  let (name, rest) := body.span (· ≠ '=')
  let value := if rest.isEmpty then none else some (String.ofList rest.tail)
  match topic.switches.find? fun s => s.long = String.ofList name with
  | none => .error (.misused (.unexpectedArgument ("--" ++ String.ofList name)))
  | some s =>
    if s.takesValue then r.meetWith s value
    else
      match value with
      | some v => .error (.misused (.surplusValue s v))
      | none => r.meet topic s

/-- The letters of an argument behind one dash.  What follows the letter of a switch
with a value is that value. -/
def short (topic : Topic) (r : Reading) : List Char → Except Stop Reading
  | [] => .ok r
  | c :: cs =>
    match topic.switches.find? fun s => s.short? = some c with
    | none => .error (.misused (.unexpectedArgument ("-" ++ c.toString)))
    | some s =>
      if s.takesValue then
        match cs with
        | [] => r.meetWith s none
        | '=' :: value => r.meetWith s (some (String.ofList value))
        | value => r.meetWith s (some (String.ofList value))
      else do short topic (← r.meet topic s) cs

/-- The error for an argument that is out of place. -/
def misplaced (topic : Topic) (r : Reading) (argument : String) : UsageError :=
  match topic with
  | .program =>
    if r.ended && (Subcommand.ofName? argument).isSome then .unexpectedArgument argument
    else .unknownSubcommand argument
  | .subcommand _ => .unexpectedArgument argument

/-- An argument that is neither a switch nor the name of a subcommand. -/
def plain (topic : Topic) (r : Reading) (argument : String) : Except Stop Reading :=
  match r.pending with
  | some (s, none) => .ok { r with pending := some (s, some argument) }
  | _ => .error (.misused (r.misplaced topic argument))

/-- Reads one argument. -/
def step (topic : Topic) (r : Reading) (argument : String) : Except Stop Reading :=
  if r.ended then .error (.misused (r.misplaced topic argument))
  else
    match argument.toList with
    | ['-', '-'] => .ok { r with ended := true }
    | '-' :: '-' :: body => r.long topic body
    | '-' :: c :: cs => r.short topic (c :: cs)
    | _ => r.plain topic argument

/-- The value given to a switch. -/
def value? (r : Reading) (s : Switch) : Option String := r.given.lookup s

/-- The union asked for. -/
def union (r : Reading) : UnionChoice :=
  ((r.value? .union).bind (UnionChoice.parse? false)).getD .default

/-- The value of a switch that must be given. -/
def required (r : Reading) (s : Switch) : Except Stop String :=
  match r.value? s with
  | some v => .ok v
  | none => .error (.misused (.missing s))

/-- The command that a subcommand with its switches asks for. -/
def command (r : Reading) : Subcommand → Except Stop Command
  | .decode => do .ok (.decode (← r.required .input) r.union (r.value? .json).isSome)
  | .validate => do .ok (.validate (← r.required .input) r.union (r.value? .json).isSome)
  | .schema => .ok (.schema r.union (r.value? .output))
  | .help => .error (.help (.subcommand .help))

end Reading

/-- What the program is asked to do, and with which configuration. -/
structure Invocation where
  config : String
  command : Command
  deriving DecidableEq, Repr

namespace Invocation

/-- The help asked for by names of subcommands.  Subcommands have none of their own. -/
def helpOn : List String → Stop
  | [] => .help .program
  | [name] =>
    match Subcommand.ofName? name with
    | some s => .help (.subcommand s)
    | none => .misused (.unknownSubcommand name)
  | name :: more :: _ =>
    .misused (.unknownSubcommand (if (Subcommand.ofName? name).isSome then more else name))

/-- Reads the arguments of a subcommand, behind those of the program.  A configuration
named behind the subcommand wins. -/
def ofSubcommand (r : Reading) (s : Subcommand) (arguments : List String) :
    Except Stop Invocation := do
  let inner ← arguments.foldlM (Reading.step (.subcommand s)) {}
  let inner ← inner.settle
  let command ← inner.command s
  let r ← r.settle
  let config := ((inner.value? .config).or (r.value? .config)).getD Config.defaultPath
  .ok ⟨config, command⟩

/-- Reads the arguments of the program that are left. -/
def ofRest (r : Reading) : List String → Except Stop Invocation
  | [] => do
    let r ← r.settle
    .error (if r.given.isEmpty then .nothingAsked else .misused .noSubcommand)
  | argument :: rest =>
    match if r.ended || r.isAwaiting then none else Subcommand.ofName? argument with
    | some .help => .error (helpOn rest)
    | some s => ofSubcommand r s rest
    | none => do ofRest (← r.step .program argument) rest

/-- Reads the arguments of the program. -/
def ofArguments (arguments : List String) : Except Stop Invocation := ofRest {} arguments

end Invocation

end Untagged.CommandLine
