import Untagged.Json.Direct
import Untagged.Json.Skip

/-!
# Reading records straight from text

A record is an object, or an array with the values of its fields in order.  Every
field may be absent, and the record read so far, which starts from the defaults,
keeps its value then.  Members that are no fields are passed over; a field may be
given once.  An array may end early, but holds no more than the fields.
-/

namespace Untagged.Json.Direct

open Reader

/-- A field of a record, with the reader that puts the field's value into it. -/
structure FieldReader (σ : Type) where
  name : String
  read : σ → Bytes → Except Failure (Read σ)

def boolean (s : Bytes) : Except Failure (Read Bool) :=
  match skipBlanks s with
  | [] => .error (.fault (.ahead .eofValue []))
  | b :: r =>
    if b = 116 then (ofGrammar (keyword [114, 117, 101] r)).map fun rest => (true, rest)
    else if b = 102 then (ofGrammar (keyword [97, 108, 115, 101] r)).map fun rest => (false, rest)
    else .error (mismatch .boolean (b :: r))

def string (s : Bytes) : Except Failure (Read String) :=
  match skipBlanks s with
  | [] => .error (.fault (.ahead .eofValue []))
  | b :: r =>
    if b = 34 then ofGrammar (Reader.string r) else .error (mismatch .string (b :: r))

/-- The values of the fields in order, inside an array.  `first` tells that no comma
is expected. -/
def elements {σ : Type} (first : Bool) :
    List (FieldReader σ) → σ → Bytes → Except Failure (Read σ)
  | [], x, s => .ok (x, s)
  | f :: fs, x, s =>
    match skipBlanks s with
    | [] => .error (.fault (.ahead .eofList []))
    | b :: r =>
      if b = 93 then .ok (x, b :: r)
      else if first then do
        let (x, rest) ← f.read x (b :: r)
        elements false fs x rest
      else if b = 44 then
        match skipBlanks r with
        | [] => .error (.fault (.ahead .eofValue []))
        | c :: t =>
          if c = 93 then .error (.fault (.ahead .trailingComma (c :: t)))
          else do
            let (x, rest) ← f.read x (c :: t)
            elements false fs x rest
      else .error (.fault (.ahead .expectedListEnd (b :: r)))

/-- The end of an array all of whose fields have been read. -/
def closeArray {σ : Type} (x : σ) (s : Bytes) : Except Failure (Read σ) :=
  match skipBlanks s with
  | [] => .error (.fault (.ahead .eofList []))
  | b :: r =>
    if b = 93 then .ok (x, r)
    else if b = 44 then
      match skipBlanks r with
      | [] => .error (.fault (.ahead .trailingCharacters []))
      | c :: t =>
        .error (.fault (.ahead (if c = 93 then .trailingComma else .trailingCharacters) (c :: t)))
    else .error (.fault (.ahead .trailingCharacters (b :: r)))

/-- A member of an object, behind the opening quote of its name: the record and the
names of the fields given so far. -/
def member {σ : Type} (fields : List (FieldReader σ)) (given : List String) (x : σ) (s : Bytes) :
    Except Failure ((σ × List String) × Bytes) := do
  let (name, rest) ← ofGrammar (Reader.string s)
  match fields.find? (·.name = name) with
  | some f =>
    if given.contains name then .error (.rejected (.duplicateField name) (afterObject rest))
    else do
      let rest ← ofGrammar (colon rest)
      let (x, rest) ← f.read x rest
      .ok ((x, name :: given), rest)
  | none => do
    let rest ← ofGrammar (colon rest)
    let rest ← ofGrammar (Skip.value rest)
    .ok ((x, given), rest)

/-- The members behind the first one, up to the closing brace. -/
def membersAfter {σ : Type} (fields : List (FieldReader σ)) :
    Nat → List String → σ → Bytes → Except Failure (Read σ)
  | 0, _, _, _ => .error (.fault (.ahead .eofObject []))
  | fuel + 1, given, x, s =>
    match skipBlanks s with
    | [] => .error (.fault (.ahead .eofObject []))
    | b :: r =>
      if b = 125 then .ok (x, r)
      else if b = 44 then
        match skipBlanks r with
        | [] => .error (.fault (.ahead .eofValue []))
        | c :: t =>
          if c = 34 then do
            let ((x, given), rest) ← member fields given x t
            membersAfter fields fuel given x rest
          else if c = 125 then .error (.fault (.ahead .trailingComma (c :: t)))
          else .error (.fault (.ahead .keyNotString (c :: t)))
      else .error (.fault (.ahead .expectedObjectEnd (b :: r)))

/-- The inside of an object, behind its opening brace. -/
def membership {σ : Type} (fields : List (FieldReader σ)) (x : σ) (s : Bytes) :
    Except Failure (Read σ) :=
  match skipBlanks s with
  | [] => .error (.fault (.ahead .eofObject []))
  | b :: r =>
    if b = 125 then .ok (x, r)
    else if b = 34 then do
      let ((x, given), rest) ← member fields [] x r
      membersAfter fields rest.length given x rest
    else .error (.fault (.ahead .keyNotString (b :: r)))

/-- A record, read over its defaults. -/
def record {σ : Type} (name : String) (fields : List (FieldReader σ)) (defaults : σ)
    (s : Bytes) : Except Failure (Read σ) :=
  match skipBlanks s with
  | [] => .error (.fault (.ahead .eofValue []))
  | b :: r =>
    if b = 91 then do
      let (x, rest) ← elements true fields defaults r
      closeArray x rest
    else if b = 123 then membership fields defaults r
    else .error (mismatch (.record name) (b :: r))

/-- A record that is the whole text. -/
def document {σ : Type} (name : String) (fields : List (FieldReader σ)) (defaults : σ)
    (text : String) : Except Failure σ := do
  let (x, rest) ← record name fields defaults (Utf8.encode text)
  ofGrammar (finish x rest)

end Untagged.Json.Direct
