import Untagged.Json.Sink
import Untagged.Json.Source
import Untagged.Union

/-!
# Documents of a union

The ways into a union and out of it.  A document is decoded from text, from bytes
or from a stream, and validated on request; what is not JSON at all is malformed.
A value is encoded as compact or pretty text, as a JSON value, or into bounded
space.
-/

namespace Untagged.Union

variable {α : Type}

/-- The failure for a document that is not JSON. -/
def notJson (u : Union α) (e : Json.Error) : DecodeError := .malformed u.name (.notJson e)

/-- Decodes what a reader of documents returned. -/
def decodeRead (u : Union α) (read : Except Json.Error Json) : Attempt DecodeError (OneOf α) :=
  match read with
  | .ok v => u.decode v
  | .error e => .fail (u.notJson e)

def decodeText (u : Union α) (text : String) : Attempt DecodeError (OneOf α) :=
  u.decodeRead (Json.ofText text)

/-- Decodes a text, showing every property to `inspect`.  What is not JSON has none. -/
def decodeTextInspecting {σ : Type} (u : Union α) (inspect : String → Json → σ → σ)
    (text : String) (s : σ) : σ × Attempt DecodeError (OneOf α) :=
  match Json.ofText text with
  | .ok v => u.decodeInspecting inspect v s
  | .error e => (s, .fail (u.notJson e))

def decodeBytes (u : Union α) (bytes : Bytes) : Attempt DecodeError (OneOf α) :=
  u.decodeRead (Json.ofBytes bytes)

def decodeStream (u : Union α) (stream : Json.Stream) : Attempt DecodeError (OneOf α) :=
  u.decodeRead (Json.ofStream stream)

/-- Decodes a text and validates the value.  Findings never make another variant
win. -/
def decodeChecked (u : Union α) (text : String) : Attempt DecodeError (OneOf α) :=
  (u.decodeText text).andThen fun x =>
    match u.validate x with
    | [] => .succeed x
    | findings => .fail (.invalid u.name findings)

def compactText (u : Union α) (x : OneOf α) : String := (u.toDatum x).compactText

def prettyText (u : Union α) (x : OneOf α) : String := (u.toDatum x).prettyText

def toJson (u : Union α) (x : OneOf α) : Json := (u.toDatum x).toJson

/-- Writes the compact text into a sink: what the sink kept, and whether all of it
fit. -/
def writeTo (u : Union α) (sink : Sink) (x : OneOf α) : Sink × Bool :=
  sink.write (Writer.compact (u.toDatum x))

/-- The message for a text that did not fit. -/
def unwritten : String := "JSON encoding error: failed to write whole buffer"

/-- Encodes a value into a sink: what the sink kept, and the error for a text that did
not fit. -/
def encodeTo (u : Union α) (sink : Sink) (x : OneOf α) : Sink × Except String Unit :=
  match u.writeTo sink x with
  | (written, true) => (written, .ok ())
  | (written, false) => (written, .error unwritten)

end Untagged.Union
