import Untagged.Double.Text
import Untagged.Finding
import Untagged.Json.Fault
import Untagged.Text.Quoted

/-!
# Why a document is not decoded

A `Rejection` is the reason for which one shape does not accept a value.  A
`DecodeError` is the failure of a union as a whole: the document is not of a kind
that a union may have, no variant accepts it, or the decoded value has findings.
A union that stands inside a shape passes its failure on as a rejection.
-/

namespace Untagged

/-- What a document is, where it cannot be the body of a union. -/
inductive Found where
  /-- A value that is neither an object nor an array. -/
  | kind (k : Kind)
  | notJson (e : Json.Error)
  deriving DecidableEq

namespace Found

def phrase : Found → String
  | kind k => k.phrase
  | notJson e => "invalid JSON (" ++ e.message ++ ")"

end Found

/-- The failure to decode a union. -/
inductive DecodeError where
  | malformed (union : String) (found : Found)
  | noMatch (union : String) (tried : List String)
  | invalid (union : String) (findings : List Finding)
  deriving DecidableEq

namespace DecodeError

def message : DecodeError → String
  | malformed union found =>
    "malformed input for " ++ union ++ ": expected a JSON object or array, found " ++ found.phrase
  | noMatch union tried =>
    "no variant of " ++ union ++ " matches the input (tried "
      ++ String.intercalate ", " tried ++ ")"
  | invalid union findings =>
    union ++ " failed validation: " ++ String.intercalate "; " (findings.map Finding.display)

end DecodeError

/-- What stands where a shape expects something else. -/
inductive Unexpected where
  | null
  | boolean (b : Bool)
  | integer (i : Integer)
  | float (x : FiniteDouble)
  | string (s : String)
  | sequence
  | map
  deriving DecidableEq

namespace Unexpected

def phrase : Unexpected → String
  | null => "null"
  | boolean b => "boolean `" ++ (if b then "true" else "false") ++ "`"
  | integer i => "integer `" ++ toString i.val ++ "`"
  | float x => "floating point `" ++ x.val.toText ++ "`"
  | string s => "string " ++ Text.quoted s
  | sequence => "sequence"
  | map => "map"

def ofJson : Json → Unexpected
  | .null => null
  | .boolean b => boolean b
  | .number (.integer i) => integer i
  | .number (.float x) => float x
  | .string s => string s
  | .array _ => sequence
  | .object _ => map

end Unexpected

/-- What a shape expects. -/
inductive Expected where
  | string
  | boolean
  | double
  | int64
  | uint8
  | uint64
  | sequence
  | record (name : String)
  deriving DecidableEq, Repr

namespace Expected

def phrase : Expected → String
  | string => "a string"
  | boolean => "a boolean"
  | double => "f64"
  | int64 => "i64"
  | uint8 => "u8"
  | uint64 => "u64"
  | sequence => "a sequence"
  | record name => "struct " ++ name

end Expected

/-- The reason for which a shape does not accept a value. -/
inductive Rejection where
  | invalidType (found : Unexpected) (expected : Expected)
  | invalidInteger (found : Integer) (expected : Expected)
  | missingField (name : String)
  | unknownField (name : String) (known : List String)
  | duplicateField (name : String)
  | tooFewElements (given : Nat) (record : String) (size : Nat)
  | tooManyElements (given : Nat)
  | inner (error : DecodeError)
  deriving DecidableEq

namespace Rejection

def named (name : String) : String := "`" ++ name ++ "`"

/-- The names that are known, as the end of a message. -/
def knownPhrase : List String → String
  | [] => "there are no fields"
  | [a] => "expected " ++ named a
  | [a, b] => "expected " ++ named a ++ " or " ++ named b
  | names => "expected one of " ++ String.intercalate ", " (names.map named)

def message : Rejection → String
  | invalidType found expected =>
    "invalid type: " ++ found.phrase ++ ", expected " ++ expected.phrase
  | invalidInteger found expected =>
    "invalid value: integer `" ++ toString found.val ++ "`, expected " ++ expected.phrase
  | missingField name => "missing field " ++ named name
  | unknownField name known => "unknown field " ++ named name ++ ", " ++ knownPhrase known
  | duplicateField name => "duplicate field " ++ named name
  | tooFewElements given record size =>
    "invalid length " ++ toString given ++ ", expected struct " ++ record ++ " with "
      ++ toString size ++ (if size = 1 then " element" else " elements")
  | tooManyElements given =>
    "invalid length " ++ toString given ++ ", expected fewer elements in array"
  | inner error => error.message

end Rejection

end Untagged
