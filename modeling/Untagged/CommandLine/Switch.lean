import Untagged.UnionChoice

/-!
# Switches

What can be said on the command line: subcommands, and switches with or without a
value.  Which switches there are depends on the topic, the program itself or one of
its subcommands.
-/

namespace Untagged.CommandLine

/-- A subcommand. -/
inductive Subcommand where
  | decode
  | validate
  | schema
  | help
  deriving DecidableEq, Repr

namespace Subcommand

/-- All of them, in the order in which they are shown. -/
def all : List Subcommand := [decode, validate, schema, help]

def name : Subcommand → String
  | decode => "decode"
  | validate => "validate"
  | schema => "schema"
  | help => "help"

def ofName? (text : String) : Option Subcommand := all.find? fun s => s.name = text

end Subcommand

/-- What is spoken of: the program or one of its subcommands. -/
inductive Topic where
  | program
  | subcommand (s : Subcommand)
  deriving DecidableEq, Repr

/-- A switch. -/
inductive Switch where
  | config
  | input
  | union
  | output
  | json
  | help
  | version
  deriving DecidableEq, Repr

namespace Switch

/-- The name behind two dashes. -/
def long : Switch → String
  | config => "config"
  | input => "input"
  | union => "union"
  | output => "output"
  | json => "json"
  | help => "help"
  | version => "version"

/-- The letter behind one dash. -/
def short? : Switch → Option Char
  | config => some 'c'
  | input => some 'i'
  | union => some 'u'
  | output => some 'o'
  | json => none
  | help => some 'h'
  | version => some 'V'

/-- What the value of a switch is called; only a switch with such a name takes one. -/
def valueName? : Switch → Option String
  | config => some "CONFIG"
  | input => some "INPUT"
  | union => some "UNION"
  | output => some "OUTPUT"
  | json | help | version => none

def takesValue (s : Switch) : Bool := s.valueName?.isSome

/-- The long form of a switch, with its value. -/
def display (s : Switch) : String :=
  "--" ++ s.long ++ s.valueName?.elim "" fun v => " <" ++ v ++ ">"

end Switch

namespace Topic

/-- The switches of a topic, in the order in which they are shown. -/
def switches : Topic → List Switch
  | program => [.config, .help, .version]
  | subcommand .decode | subcommand .validate => [.config, .input, .union, .json, .help]
  | subcommand .schema => [.config, .union, .output, .help]
  | subcommand .help => []

end Topic

end Untagged.CommandLine
