import Untagged.Json.Source
import Untagged.Rejection

/-!
# Reading typed data straight from text

A typed reader takes what it expects from the text itself, without a JSON value in
between.  Besides the faults of the grammar it can meet a value of the wrong type.
Such a value is read, if it is a scalar, and the rejection is placed behind it; an
array or an object is not entered, and the rejection is placed before it.
-/

namespace Untagged.Json

inductive Failure where
  | fault (f : Fault)
  /-- The text is not of the expected type.  `rest` is what is left behind the place
  of the rejection. -/
  | rejected (r : Rejection) (rest : Bytes)
  /-- The data that was read is refused as a whole, at no place. -/
  | refused (r : Rejection)

namespace Failure

/-- The message of a failure in the given text. -/
def message (input : Bytes) : Failure → String
  | fault f => (f.inText input).message
  | rejected r rest =>
    located r.message (Position.behind (input.take (input.length - rest.length)))
  | refused r => r.message

end Failure

namespace Direct

/-- A reader of the grammar as a typed reader. -/
def ofGrammar {α : Type} (r : Except Fault α) : Except Failure α := r.mapError .fault

/-- The failure for a value that is not of the expected type; the text starts with
the value's first byte. -/
def mismatch (expected : Expected) : Bytes → Failure
  | [] => .fault (.ahead .eofValue [])
  | b :: r =>
    if b = 91 then .rejected (.invalidType .sequence expected) (b :: r)
    else if b = 123 then .rejected (.invalidType .map expected) (b :: r)
    else
      match Reader.valueOver none (b :: r) with
      | .ok (v, rest) => .rejected (.invalidType (.ofJson v) expected) rest
      | .error f => .fault f

/-- What is left behind an attempt to close an array: the white space, and then the
bracket, or a comma and the white space behind it. -/
def afterArray (s : Bytes) : Bytes :=
  match Reader.skipBlanks s with
  | [] => []
  | b :: r => if b = 93 then r else if b = 44 then Reader.skipBlanks r else b :: r

/-- What is left behind an attempt to close an object: the white space, and then the
brace. -/
def afterObject (s : Bytes) : Bytes :=
  match Reader.skipBlanks s with
  | [] => []
  | b :: r => if b = 125 then r else b :: r

end Direct

end Untagged.Json
