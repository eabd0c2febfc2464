import Untagged.Shape

/-!
# Unions without a tag

A union is an ordered list of candidates.  Its JSON form is the form of the
variant that it holds, with nothing that names the variant, so a document is
decoded by trial: the candidates are applied to it in declared order and the first
that accepts it wins (`Union.decode`).  Producers and consumers rely on that order.

A union may react to the properties of what it decodes by a hook.  The hook is not part
of the union here but given to the decode (`Union.decodeInspecting`), with the state that
it changes, and is shown the properties of that one document.  A union that is a member
or an item of the document is decoded by a decode of its own (`Union.shape`), which
scans what it decodes and is given no hook.

A value of a union is a `OneOf`: it holds one variant, or none.  Decoding always
returns a populated one.
-/

namespace Untagged

/-- A value that holds at most one variant. -/
inductive OneOf (α : Type) where
  | empty
  | holding (variant : α)
  deriving DecidableEq

namespace OneOf

variable {α : Type}

def variant? : OneOf α → Option α
  | empty => none
  | holding a => some a

def isHolding : OneOf α → Bool
  | empty => false
  | holding _ => true

end OneOf

/-- A declared variant: its name and how a document is read as one. -/
structure Candidate (α : Type) where
  name : String
  decode : Json → Attempt Rejection α

namespace Candidate

def ofShape {α β : Type} (name : String) (shape : Shape β) (wrap : β → α) : Candidate α where
  name := name
  decode v := (shape.decode v).map wrap

def display {α : Type} (c : Candidate α) : String :=
  "Candidate \x7b name: " ++ Text.quoted c.name ++ " \x7d"

def displayAll {α : Type} (cs : List (Candidate α)) : String :=
  "[" ++ String.intercalate ", " (cs.map display) ++ "]"

end Candidate

/-- A union with variants of type `α`. -/
structure Union (α : Type) where
  name : String
  /-- The candidates, in the order in which they are tried. -/
  candidates : List (Candidate α)
  variantName : α → String
  /-- What is written for a variant. -/
  encode : α → Datum
  /-- The schemas of the variants, in declared order. -/
  schemas : List TypeSchema
  /-- Equality of variants, with floats compared as numbers. -/
  same : α → α → Bool
  /-- What the validation of a variant finds. -/
  findings : α → List Finding := fun _ => []

/-- What a scan of top-level properties did: how many there were, what became of
the state, and what was told. -/
structure Scan (σ : Type) where
  consumed : Nat
  state : σ
  log : List Event

/-- Hands every member to `inspect`, in order. -/
def scanMembers {σ : Type} (inspect : String → Json → σ → σ) :
    List (String × Json) → σ → Scan σ
  | [], s => ⟨0, s, []⟩
  | (name, v) :: rest, s =>
    let scan := scanMembers inspect rest (inspect name v s)
    ⟨scan.consumed + 1, scan.state, .scanning name v :: scan.log⟩

/-- Hands every top-level property of a document to `inspect`, in document order
and with its whole value.  Only objects have properties. -/
def scanDocument {σ : Type} (inspect : String → Json → σ → σ) (v : Json) (s : σ) : Scan σ :=
  scanMembers inspect v.members s

namespace Union

variable {α : Type}

def names (u : Union α) : List String := u.candidates.map Candidate.name

/-- Applies candidates one after the other and stops at the first that accepts.
`name` is the union's. -/
def firstMatch (name : String) (v : Json) : List (Candidate α) → List Event × Option α
  | [] => ([], none)
  | c :: cs =>
    let attempt := c.decode v
    match attempt.outcome with
    | .ok a => (attempt.log ++ [.matched name c.name], some a)
    | .error r =>
      let (log, found) := firstMatch name v cs
      (attempt.log ++ .rejected name c.name r :: log, found)

/-- Decodes a value: one that can be the body of a union is scanned, showing every
property to `inspect`, and then tried by the candidates in turn.  The decodes of unions
inside of the value are not shown to `inspect`. -/
def decodeInspecting {σ : Type} (u : Union α) (inspect : String → Json → σ → σ) (v : Json)
    (s : σ) : σ × Attempt DecodeError (OneOf α) :=
  if v.kind.isContainer then
    let scan := scanDocument inspect v s
    let (log, found) := firstMatch u.name v u.candidates
    (scan.state, .telling (scan.log ++ log) <|
      match found with
      | some a => .succeed (.holding a)
      | none => .fail (.noMatch u.name u.names))
  else (s, .fail (.malformed u.name (.kind v.kind)))

/-- Decodes a value for a union that does not react to any property. -/
def decode (u : Union α) (v : Json) : Attempt DecodeError (OneOf α) :=
  (u.decodeInspecting (fun _ _ s => s) v ()).2

def variantName? (u : Union α) (x : OneOf α) : Option String := x.variant?.map u.variantName

/-- A value for the reader: the union and the variant held. -/
def display (u : Union α) (x : OneOf α) : String :=
  u.name ++ "(" ++ (u.variantName? x).getD "empty" ++ ")"

/-- What is written for a value; nothing held is an object without members. -/
def toDatum (u : Union α) : OneOf α → Datum
  | .empty => .record []
  | .holding a => u.encode a

def validate (u : Union α) : OneOf α → List Finding
  | .empty => []
  | .holding a => u.findings a

/-- Equality of values: both hold nothing, or equal variants. -/
def sameValue (u : Union α) : OneOf α → OneOf α → Bool
  | .empty, .empty => true
  | .holding a, .holding b => u.same a b
  | _, _ => false

/-- The outline of the union: one of its variants. -/
def schema (u : Union α) : TypeSchema := .named u.name (.union u.name u.schemas)

/-- The union as the shape of a member or an item.  Its failure is the reason for
which the value around it is rejected.  What a hook would make of the properties inside
is the matter of this decode, not of the one around it. -/
def shape (u : Union α) : Shape (OneOf α) where
  decode v := (u.decode v).mapError .inner
  encode := u.toDatum
  schema := u.schema

end Union

end Untagged
