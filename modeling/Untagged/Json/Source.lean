import Untagged.Json.Reader

/-!
# Where documents come from

A document is read from text, from bytes, or from a stream that hands out its
bytes piece by piece and may fail.  All three are the same grammar over the same
bytes.  They differ in how many bytes count as read when a fault is reported.

A stream is asked for more only where the grammar looks behind the bytes that were
handed out so far.  So a value is read as soon as it is complete, and it is the check
for the end of the document that asks the stream further, until it ends or fails.
-/

namespace Untagged.Json

def ofText (text : String) : Except Error Json :=
  let input := Utf8.encode text
  (Reader.document input).mapError (·.inText input)

def ofBytes (input : Bytes) : Except Error Json :=
  (Reader.document input).mapError (·.inText input)

/-- One step of a stream: a piece of its bytes, where an empty piece is the end of
the input, or a failure. -/
inductive Pull where
  | piece (bytes : Bytes)
  | failure
  deriving DecidableEq, Repr

/-- What a stream answers, call by call.  Behind the last answer is the end of the
input. -/
abbrev Stream := List Pull

namespace Stream

/-- The bytes in pieces of at most `size`, `n` pieces at most. -/
def piecesOf (size : Nat) : Nat → Bytes → Stream
  | 0, _ => []
  | _, [] => []
  | n + 1, bs => .piece (bs.take size) :: piecesOf size n (bs.drop size)

/-- The stream that hands out `input` in pieces of at most `size` bytes, and fails
once `limit` bytes have been handed out. -/
def ofLimits (input : Bytes) (size : Option Nat) (limit : Option Nat) : Stream :=
  let inPieces (bs : Bytes) := piecesOf (size.getD bs.length) bs.length bs
  match limit with
  | some n => if n ≤ input.length then inPieces (input.take n) ++ [.failure] else inPieces input
  | none => inPieces input

end Stream

/-- A failure of the stream itself has a place only inside an array or object. -/
def failedRead (given : Bytes) (nested : Bool) : Error :=
  ⟨.readFailed, if nested then some (Position.behind given) else none⟩

namespace Reader

/-- Whether the reader of a value has looked behind the last byte of its input.  Of
the values that are read only a number does not say where it ends. -/
def looksBehind : Except Fault (Read Json) → Bool
  | .ok (v, rest) => v.kind = .number && rest.isEmpty
  | .error f => f.asksPastEnd

/-- Whether the reader stopped inside an array or an object. -/
def stopsInside : Except Fault (Read Json) → Bool
  | .ok _ => false
  | .error f => f.nested

end Reader

namespace Stream

/-- A place in a stream behind a value. -/
structure Place where
  /-- The bytes that were handed out so far. -/
  given : Bytes
  /-- Those of them that are behind the value. -/
  ahead : Bytes
  /-- What the stream answers next. -/
  stream : Stream

/-- What was read from the bytes handed out so far, where the stream is not asked
for more. -/
def settle (given : Bytes) (stream : Stream) :
    Except Fault (Reader.Read Json) → Except Error (Json × Place)
  | .ok (v, rest) => .ok (v, ⟨given, rest, stream⟩)
  | .error f => .error (f.inStream given)

/-- Reads a value, where `given` was handed out before.  The stream is asked for more
as long as the grammar looks behind what was handed out. -/
def value (given : Bytes) (stream : Stream) : Except Error (Json × Place) :=
  let read := Reader.value Reader.maxDepth given
  if Reader.looksBehind read then
    match stream with
    | .piece (b :: bs) :: more => value (given ++ b :: bs) more
    | .failure :: _ => .error (failedRead given (Reader.stopsInside read))
    | ended => settle given ended read
  else settle given stream read

/-- The check that only white space follows, where `ahead` is what was handed out and
not read.  White space never tells that a document is at its end, so the stream is
asked for more until it ends. -/
def finish {α : Type} (x : α) (given ahead : Bytes) (stream : Stream) : Except Error α :=
  match Reader.finish x ahead with
  | .error f => .error (f.inStream given)
  | .ok x =>
    match stream with
    | .piece (b :: bs) :: more => finish x (given ++ b :: bs) (b :: bs) more
    | .failure :: _ => .error (failedRead given false)
    | _ => .ok x

end Stream

/-- Reads a document from a stream: one value, and the check that nothing follows. -/
def ofStream (stream : Stream) : Except Error Json := do
  let (v, place) ← stream.value []
  Stream.finish v place.given place.ahead place.stream

end Untagged.Json
