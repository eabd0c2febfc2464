/-!
# What can be wrong with JSON text

A `Fault` is the cause for which the grammar stops, together with what is left of
the input there.  Where the fault lies is told by the bytes that were read: a
`Mark` says whether the fault is at the byte looked at or behind the bytes
consumed, and `Position` counts lines and columns over a number of bytes.

The same fault has the same cause for every source; only how much of the source
counts as read differs between text held in memory and a stream, and both counts
are defined here (`Fault.textOffset`, `Fault.streamOffset`).
-/

namespace Untagged

abbrev Bytes := List UInt8

namespace Json

inductive Cause where
  | eofValue
  | eofList
  | eofObject
  | eofString
  | expectedValue
  | expectedIdent
  | expectedColon
  | expectedListEnd
  | expectedObjectEnd
  | keyNotString
  | trailingComma
  | trailingCharacters
  | tooDeep
  | invalidNumber
  | numberOutOfRange
  | invalidEscape
  | controlCharacter
  | loneSurrogate
  | unfinishedPair
  | invalidText
  | readFailed
  deriving DecidableEq, Repr

inductive Category where
  | syntactic
  | endOfInput
  | stream
  deriving DecidableEq, Repr

namespace Category

def name : Category → String
  | syntactic => "Syntax"
  | endOfInput => "Eof"
  | stream => "Io"

end Category

namespace Cause

def message : Cause → String
  | eofValue => "EOF while parsing a value"
  | eofList => "EOF while parsing a list"
  | eofObject => "EOF while parsing an object"
  | eofString => "EOF while parsing a string"
  | expectedValue => "expected value"
  | expectedIdent => "expected ident"
  | expectedColon => "expected `:`"
  | expectedListEnd => "expected `,` or `]`"
  | expectedObjectEnd => "expected `,` or `\x7d`"
  | keyNotString => "key must be a string"
  | trailingComma => "trailing comma"
  | trailingCharacters => "trailing characters"
  | tooDeep => "recursion limit exceeded"
  | invalidNumber => "invalid number"
  | numberOutOfRange => "number out of range"
  | invalidEscape => "invalid escape"
  | controlCharacter => "control character (\\u0000-\\u001F) found while parsing a string"
  | loneSurrogate => "lone leading surrogate in hex escape"
  | unfinishedPair => "unexpected end of hex escape"
  | invalidText => "invalid unicode code point"
  | readFailed => "reader failed"

def category : Cause → Category
  | eofValue | eofList | eofObject | eofString => .endOfInput
  | readFailed => .stream
  | _ => .syntactic

end Cause

/-- Where a fault lies, seen from the bytes consumed before it. -/
inductive Mark where
  /-- Behind the last byte consumed; the next byte has not been looked at. -/
  | behind
  /-- Behind the last byte consumed, though the next byte has been looked at. -/
  | behindLooking
  /-- At the next byte, which has been looked at. -/
  | ahead
  deriving DecidableEq, Repr

/-- The reason for which the grammar stops, and where. -/
structure Fault where
  cause : Cause
  mark : Mark
  /-- The bytes that have not been consumed. -/
  rest : Bytes
  /-- How far the fault lies before the place its mark says: an invalid text is
  noticed behind its closing quote. -/
  back : Nat := 0
  /-- Whether the fault lies inside an array or an object. -/
  nested : Bool := false

/-- A place in a document: lines count from 1, columns from 0 at the start of a
line. -/
structure Position where
  line : Nat
  column : Nat
  deriving DecidableEq, Repr

namespace Position

/-- The place behind the given bytes. -/
def behind (bytes : Bytes) : Position where
  line := 1 + bytes.count 10
  column := (bytes.reverse.takeWhile (· ≠ 10)).length

end Position

/-- An error of reading JSON.  Its message names the place where there is one. -/
structure Error where
  cause : Cause
  position : Option Position
  deriving DecidableEq, Repr

def located (message : String) (p : Position) : String :=
  message ++ " at line " ++ toString p.line ++ " column " ++ toString p.column

namespace Error

def message (e : Error) : String :=
  match e.position with
  | some p => located e.cause.message p
  | none => e.cause.message

end Error

namespace Fault

/-- A fault at the byte looked at. -/
def ahead (cause : Cause) (rest : Bytes) : Fault := ⟨cause, .ahead, rest, 0, false⟩

/-- A fault behind the last byte consumed. -/
def behind (cause : Cause) (rest : Bytes) : Fault := ⟨cause, .behind, rest, 0, false⟩

def consumed (f : Fault) (input : Bytes) : Nat := input.length - f.rest.length

/-- How many bytes lie before the place of a fault in text held in memory. -/
def textOffset (f : Fault) (input : Bytes) : Nat :=
  match f.mark with
  | .ahead => min (f.consumed input + 1) input.length
  | .behind | .behindLooking => f.consumed input

/-- How many bytes of a stream have been read when a fault is noticed.  A byte
that was looked at counts. -/
def streamOffset (f : Fault) (input : Bytes) : Nat :=
  match f.mark with
  | .behind => f.consumed input
  | .ahead | .behindLooking => min (f.consumed input + 1) input.length

/-- The place reached by reading `offset` bytes, moved back as the fault asks. -/
def positionAt (f : Fault) (input : Bytes) (offset : Nat) : Position :=
  let p := Position.behind (input.take offset)
  ⟨p.line, p.column - f.back⟩

/-- The error a fault is in text held in memory. -/
def inText (f : Fault) (input : Bytes) : Error :=
  ⟨f.cause, some (f.positionAt input (f.textOffset input))⟩

/-- The error a fault is in a stream that ends. -/
def inStream (f : Fault) (input : Bytes) : Error :=
  ⟨f.cause, some (f.positionAt input (f.streamOffset input))⟩

/-- Whether the fault was noticed by asking for a byte behind the last one. -/
def asksPastEnd (f : Fault) : Bool :=
  f.rest.isEmpty && (f.mark != .behind || f.cause.category == .endOfInput)

end Fault

end Json

end Untagged
