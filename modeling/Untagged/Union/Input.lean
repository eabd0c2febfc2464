import Untagged.Union.Streaming

/-!
# Inputs

The ways in which a document reaches a union, as data: `Union.decodeInput` is the
decoder for each of them.
-/

namespace Untagged

inductive Input where
  | text (s : String)
  /-- A text whose value is also validated. -/
  | validated (s : String)
  /-- A text read as the union itself. -/
  | direct (s : String)
  /-- A text read as an array of the union; its last item counts. -/
  | list (s : String)
  | bytes (bs : Bytes)
  | stream (s : Json.Stream)
  | value (v : Json)

inductive InputError where
  | decode (e : DecodeError)
  /-- The message of reading typed data from text. -/
  | direct (message : String)

namespace Union

variable {α : Type}

/-- Decodes an input.  An array without items stands for an empty value. -/
def decodeInput (u : Union α) : Input → Attempt InputError (OneOf α)
  | .text s => (u.decodeText s).mapError .decode
  | .validated s => (u.decodeChecked s).mapError .decode
  | .direct s => (u.decodeDirect s).mapError fun f => .direct (f.message (Utf8.encode s))
  | .list s =>
    ((u.decodeList s).map fun xs => xs.getLast?.getD .empty).mapError fun f =>
      .direct (f.message (Utf8.encode s))
  | .bytes bs => (u.decodeBytes bs).mapError .decode
  | .stream s => (u.decodeStream s).mapError .decode
  | .value v => (u.decode v).mapError .decode

end Union

end Untagged
