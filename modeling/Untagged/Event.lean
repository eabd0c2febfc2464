import Untagged.Rejection

/-!
# Events

What the library tells about its work while it goes on.  An event has a level, an
area, the part of the program that tells it, and fields beside its message.  Log
filters choose events by area and level.
-/

namespace Untagged

/-- How important an event is; `error` is the most important one. -/
inductive Level where
  | error
  | warn
  | info
  | debug
  | trace
  deriving DecidableEq, Repr

namespace Level

/-- A level by its place, from the most important one on. -/
def rank : Level → Nat
  | error => 1
  | warn => 2
  | info => 3
  | debug => 4
  | trace => 5

def name : Level → String
  | error => "ERROR"
  | warn => "WARN"
  | info => "INFO"
  | debug => "DEBUG"
  | trace => "TRACE"

end Level

/-- Something the library tells. -/
inductive Event where
  /-- A top-level property of a document is looked at, and its value is shown whole
  to whoever wants to see it.  The message names the property only. -/
  | scanning (property : String) (value : Json)
  | rejected (union variant : String) (reason : Rejection)
  | matched (union variant : String)
  /-- A document has been read from a file and is about to be decoded. -/
  | decoding (path union : String)
  | decoded (path union variant : String)
  /-- A decoded document has a finding. -/
  | found (path : String) (finding : Finding)
  /-- There is no configuration file, so the defaults hold. -/
  | noConfig (path : String)

/-- The value of an event's field: a text, or the message of an error. -/
inductive FieldValue where
  | text (s : String)
  | error (r : Rejection)
  deriving DecidableEq

namespace FieldValue

/-- The value without quotes. -/
def plain : FieldValue → String
  | text s => s
  | error r => r.message

/-- The value as a log line shows it. -/
def shown : FieldValue → String
  | text s => Text.quoted s
  | error r => r.message

end FieldValue

namespace Event

def level : Event → Level
  | scanning _ _ | matched _ _ => .trace
  | found _ _ => .warn
  | rejected _ _ _ | decoding _ _ | decoded _ _ _ | noConfig _ => .debug

def area : Event → String
  | scanning _ _ => "oneof_core::scan"
  | rejected _ _ _ | matched _ _ => "oneof_core::codec"
  | decoding _ _ => "oneof_common::loader"
  | decoded _ _ _ => "oneof::commands::decode"
  | found _ _ => "oneof::commands::validate"
  | noConfig _ => "oneof_common::config"

def message : Event → String
  | scanning _ _ => "scanning top-level property"
  | rejected _ _ _ => "variant rejected input"
  | matched _ _ => "variant matched"
  | decoding path union => "Decoding " ++ Text.quotedPath path ++ " as " ++ union
  | decoded path union variant =>
    "Decoded " ++ Text.quotedPath path ++ " as " ++ union ++ "::" ++ variant
  | found path finding => path ++ ": " ++ finding.display
  | noConfig path => "No config at " ++ Text.quotedPath path ++ ", using defaults"

/-- The fields beside the message, in order. -/
def fields : Event → List (String × FieldValue)
  | scanning property _ => [("property", .text property)]
  | rejected union variant reason =>
    [("union", .text union), ("variant", .text variant), ("error", .error reason)]
  | matched union variant => [("union", .text union), ("variant", .text variant)]
  | decoding _ _ | decoded _ _ _ | found _ _ | noConfig _ => []

/-- The property that an event shows, with its value. -/
def property? : Event → Option (String × Json)
  | scanning name value => some (name, value)
  | _ => none

/-- The event as a line of a log, without the time. -/
def line (e : Event) : String :=
  e.level.name ++ " " ++ e.message
    ++ String.join (e.fields.map fun (name, value) => " " ++ name ++ "=" ++ value.shown)

end Event

end Untagged
