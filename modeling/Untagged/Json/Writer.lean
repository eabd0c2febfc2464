import Untagged.Double.Text
import Untagged.Json.Datum

/-!
# Writing

A datum is written as a list of pieces of text, one for each punctuation mark,
each number, each name and each run of a string between two escapes.  The text of
the datum is the pieces joined (`compactText`, `prettyText`).  A sink that takes
only so many bytes takes the pieces one after the other and stops inside the first
that does not fit (`Sink.write`).

The compact form has no white space.  The pretty form puts every item and every
member on a line of its own, two spaces deeper than what holds it; containers that
hold nothing stay `[]` and `{}`.
-/

namespace Untagged

namespace Writer

/-- The two lower-case hexadecimal digits of a number below 256. -/
def hexPair (n : Nat) : String :=
  String.ofList [Nat.digitChar (n / 16), Nat.digitChar (n % 16)]

/-- How a character is escaped inside a string, where it is. -/
def escape? (c : Char) : Option String :=
  if c = '"' then some "\\\""
  else if c = '\\' then some "\\\\"
  else if c = '\x08' then some "\\b"
  else if c = '\x0c' then some "\\f"
  else if c = '\n' then some "\\n"
  else if c = '\x0d' then some "\\r"
  else if c = '\t' then some "\\t"
  else if c.toNat < 32 then some ("\\u00" ++ hexPair c.toNat)
  else none

/-- The pieces of a string between its quotes: every escape is a piece, and so is
every run of characters between two of them.  `run` is the run so far, reversed. -/
def runs (run : List Char) : List Char → List String
  | [] => if run.isEmpty then [] else [String.ofList run.reverse]
  | c :: cs =>
    match escape? c with
    | some e =>
      if run.isEmpty then e :: runs [] cs else String.ofList run.reverse :: e :: runs [] cs
    | none => runs (c :: run) cs

/-- The pieces of a string. -/
def stringPieces (s : String) : List String := "\"" :: runs [] s.toList ++ ["\""]

/-- The text of a float; one that is not finite is `null`. -/
def floatText (x : Double) : String := if x.isFinite then x.toText else "null"

def booleanText (b : Bool) : String := if b then "true" else "false"

mutual

/-- The pieces of a datum in the compact form. -/
def compact : Datum → List String
  | .null => ["null"]
  | .boolean b => [booleanText b]
  | .integer i => [toString i.val]
  | .float x => [floatText x]
  | .string s => stringPieces s
  | .sequence items => "[" :: compactItems true items ++ ["]"]
  | .record members => "\x7b" :: compactMembers true members ++ ["\x7d"]

/-- The items of a sequence; all but the first are led by a comma. -/
def compactItems (first : Bool) : List Datum → List String
  | [] => []
  | d :: ds => (if first then [] else [","]) ++ compact d ++ compactItems false ds

/-- The members of a record; all but the first are led by a comma. -/
def compactMembers (first : Bool) : List (String × Datum) → List String
  | [] => []
  | (name, d) :: ds =>
    (if first then [] else [","]) ++ stringPieces name ++ [":"] ++ compact d
      ++ compactMembers false ds

end

/-- The white space that leads a line at some depth. -/
def margin (depth : Nat) : List String := List.replicate depth "  "

mutual

/-- The pieces of a datum in the pretty form, inside `depth` containers. -/
def pretty (depth : Nat) : Datum → List String
  | .null => ["null"]
  | .boolean b => [booleanText b]
  | .integer i => [toString i.val]
  | .float x => [floatText x]
  | .string s => stringPieces s
  | .sequence [] => ["[", "]"]
  | .sequence (d :: ds) =>
    "[" :: "\n" :: margin (depth + 1) ++ pretty (depth + 1) d ++ prettyItems (depth + 1) ds
      ++ "\n" :: margin depth ++ ["]"]
  | .record [] => ["\x7b", "\x7d"]
  | .record ((name, d) :: ds) =>
    "\x7b" :: "\n" :: margin (depth + 1) ++ stringPieces name ++ ": " :: pretty (depth + 1) d
      ++ prettyMembers (depth + 1) ds ++ "\n" :: margin depth ++ ["\x7d"]

/-- The items behind the first one. -/
def prettyItems (depth : Nat) : List Datum → List String
  | [] => []
  | d :: ds => ",\n" :: margin depth ++ pretty depth d ++ prettyItems depth ds

/-- The members behind the first one. -/
def prettyMembers (depth : Nat) : List (String × Datum) → List String
  | [] => []
  | (name, d) :: ds =>
    ",\n" :: margin depth ++ stringPieces name ++ ": " :: pretty depth d
      ++ prettyMembers depth ds

end

end Writer

namespace Datum

def compactText (d : Datum) : String := String.join (Writer.compact d)

def prettyText (d : Datum) : String := String.join (Writer.pretty 0 d)

def text (pretty : Bool) (d : Datum) : String := if pretty then d.prettyText else d.compactText

end Datum

namespace Json

def compactText (v : Json) : String := (Datum.ofJson v).compactText

def prettyText (v : Json) : String := (Datum.ofJson v).prettyText

end Json

end Untagged
