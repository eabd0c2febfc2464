import Untagged.Json.Direct
import Untagged.Union.Codec

/-!
# Unions inside other data

A union inside other data is read from the text around it as one JSON value, which
is then decoded by trial.  So the trial comes before anything that follows the
value is looked at: a union that does not match is reported even where the text
goes wrong behind it.  `decodeDirect` reads a union that is the whole text and
`decodeList` an array of them.
-/

namespace Untagged.Union

open Json (Failure)

variable {α : Type}

/-- Reads a union that is the whole text. -/
def decodeDirect (u : Union α) (text : String) : Attempt Failure (OneOf α) :=
  match Json.Reader.value Json.Reader.maxDepth (Utf8.encode text) with
  | .error f => .fail (.fault f)
  | .ok (v, rest) =>
    ((u.decode v).mapError fun e => .refused (.inner e)).andThen fun x =>
      .ofExcept (Json.Direct.ofGrammar (Json.Reader.finish x rest))

/-- How many levels an item of a list may have: the list itself is one. -/
def itemDepth : Nat := Json.Reader.maxDepth - 1

/-- Decodes an item of a list.  A failure is placed where an attempt to close the
list ends. -/
def decodeItem (u : Union α) (v : Json) (rest : Bytes) : Attempt Failure (OneOf α) :=
  (u.decode v).mapError fun e => .rejected (.inner e) (Json.Direct.afterArray rest)

/-- Reads the items of a list from the first one on, each decoded before the text
behind it is looked at. -/
def decodeItems (u : Union α) : Nat → Bytes → Attempt Failure (List (OneOf α) × Bytes)
  | 0, _ => .fail (.fault (.ahead .eofList []))
  | fuel + 1, s =>
    match Json.Reader.value itemDepth s with
    | .error f => .fail (.fault f)
    | .ok (v, rest) =>
      (u.decodeItem v rest).andThen fun x =>
        match Json.Reader.skipBlanks rest with
        | [] => .fail (.fault (.ahead .eofList []))
        | b :: r =>
          if b = 93 then .succeed ([x], r)
          else if b = 44 then
            match Json.Reader.skipBlanks r with
            | [] => .fail (.fault (.ahead .eofValue []))
            | c :: t =>
              if c = 93 then .fail (.fault (.ahead .trailingComma (c :: t)))
              else (u.decodeItems fuel (c :: t)).map fun (xs, rest) => (x :: xs, rest)
          else .fail (.fault (.ahead .expectedListEnd (b :: r)))

/-- The inside of a list, behind its opening bracket. -/
def decodeInside (u : Union α) (s : Bytes) : Attempt Failure (List (OneOf α) × Bytes) :=
  match Json.Reader.skipBlanks s with
  | [] => .fail (.fault (.ahead .eofList []))
  | b :: r => if b = 93 then .succeed ([], r) else u.decodeItems (r.length + 1) (b :: r)

/-- Reads an array of unions that is the whole text. -/
def decodeList (u : Union α) (text : String) : Attempt Failure (List (OneOf α)) :=
  match Json.Reader.skipBlanks (Utf8.encode text) with
  | [] => .fail (.fault (.ahead .eofValue []))
  | b :: r =>
    if b = 91 then
      (u.decodeInside r).andThen fun (xs, rest) =>
        .ofExcept (Json.Direct.ofGrammar (Json.Reader.finish xs rest))
    else .fail (Json.Direct.mismatch .sequence (b :: r))

end Untagged.Union
