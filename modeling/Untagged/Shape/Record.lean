import Untagged.Shape

/-!
# Records

A record is read into a draft, a value of the record's type whose members are set
one after the other.  From an object the members come in document order; the first
that is unknown to a closed record, repeated, or of the wrong type decides the
rejection, and only when all were read is a required member missed.  From an array
the members come in declared order; too few elements are noticed at the first
member that must be there, too many once all members were read.
-/

namespace Untagged

/-- A member of a record with drafts of type `σ`. -/
structure Member (σ : Type) where
  name : String
  presence : Presence
  schema : TypeSchema
  /-- Reads the member's value into a draft. -/
  read : Json → σ → Attempt Rejection σ
  /-- What is written for the member, if anything. -/
  write : σ → Option Datum

namespace Member

variable {σ α : Type}

/-- Whether the member may not be absent from an object. -/
def isRequired (m : Member σ) : Bool := m.presence = .required

/-- Whether the member may not be absent from an array. -/
def isPositional (m : Member σ) : Bool := m.presence = .required || m.presence = .nullable

def required (name : String) (shape : Shape α) (get : σ → α) (set : α → σ → σ) : Member σ where
  name := name
  presence := .required
  schema := shape.schema
  read v s := (shape.decode v).map fun a => set a s
  write s := some (shape.encode (get s))

/-- A member that may be absent; an absent one is not written. -/
def omitted (name : String) (shape : Shape α) (get : σ → Option α) (set : Option α → σ → σ) :
    Member σ where
  name := name
  presence := .omitted
  schema := shape.option.schema
  read v s := (shape.option.decode v).map fun a => set a s
  write s := (get s).map shape.encode

/-- A member that may be absent; an absent one is written as `null`. -/
def defaulted (name : String) (shape : Shape α) (get : σ → Option α) (set : Option α → σ → σ) :
    Member σ where
  name := name
  presence := .defaulted
  schema := shape.option.schema
  read v s := (shape.option.decode v).map fun a => set a s
  write s := some (shape.option.encode (get s))

/-- A member that may be absent from an object, but not from an array; an absent
one is written as `null`. -/
def nullable (name : String) (shape : Shape α) (get : σ → Option α) (set : Option α → σ → σ) :
    Member σ where
  name := name
  presence := .nullable
  schema := shape.option.schema
  read v s := (shape.option.decode v).map fun a => set a s
  write s := some (shape.option.encode (get s))

end Member

/-- A record with drafts of type `σ`. -/
structure Record (σ : Type) where
  name : String
  description : Option String
  /-- Whether members of other names are rejected. -/
  closed : Bool
  members : List (Member σ)
  /-- The draft in which no member has been set. -/
  blank : σ

namespace Record

variable {σ : Type}

def member? (r : Record σ) (name : String) : Option (Member σ) :=
  r.members.find? fun m => m.name = name

def names (r : Record σ) : List String := r.members.map Member.name

/-- Reads the members of an object into a draft, in document order.  `seen` are
the names of those read before. -/
def readMembers (r : Record σ) (seen : List String) :
    List (String × Json) → σ → Attempt Rejection σ
  | [], s => .succeed s
  | (name, v) :: rest, s =>
    match r.member? name with
    | some m =>
      if name ∈ seen then .fail (.duplicateField name)
      else (m.read v s).andThen (r.readMembers (name :: seen) rest)
    | none =>
      if r.closed then .fail (.unknownField name r.names) else r.readMembers seen rest s

/-- The first required member that an object lacks. -/
def missing? (r : Record σ) (given : List (String × Json)) : Option (Member σ) :=
  r.members.find? fun m => m.isRequired && !(given.map Prod.fst).contains m.name

/-- Reads a record from the members of an object. -/
def ofMembers (r : Record σ) (given : List (String × Json)) : Attempt Rejection σ :=
  (r.readMembers [] given r.blank).andThen fun s =>
    match r.missing? given with
    | some m => .fail (.missingField m.name)
    | none => .succeed s

/-- Reads elements into a draft, one for each member in declared order; `index` is
the place of the first of them. -/
def readElements (r : Record σ) (index : Nat) :
    List (Member σ) → List Json → σ → Attempt Rejection σ
  | [], _, s => .succeed s
  | m :: ms, [], s =>
    if m.isPositional then .fail (.tooFewElements index r.name r.members.length)
    else r.readElements (index + 1) ms [] s
  | m :: ms, v :: vs, s => (m.read v s).andThen (r.readElements (index + 1) ms vs)

/-- Reads a record from the elements of an array. -/
def ofElements (r : Record σ) (given : List Json) : Attempt Rejection σ :=
  (r.readElements 0 r.members given r.blank).andThen fun s =>
    if r.members.length < given.length then .fail (.tooManyElements given.length) else .succeed s

def decode (r : Record σ) : Json → Attempt Rejection σ
  | .object ms => r.ofMembers ms
  | .array vs => r.ofElements vs
  | v => Shape.mismatch v (.record r.name)

/-- The members that are written, in declared order. -/
def writeMembers (s : σ) : List (Member σ) → List (String × Datum)
  | [] => []
  | m :: ms =>
    match m.write s with
    | some d => (m.name, d) :: writeMembers s ms
    | none => writeMembers s ms

def encode (r : Record σ) (s : σ) : Datum := .record (writeMembers s r.members)

/-- The outline of the record, under its name. -/
def schema (r : Record σ) : TypeSchema :=
  .named r.name <|
    .record r.description r.closed (r.members.map fun m => (m.name, m.presence, m.schema))

def shape (r : Record σ) : Shape σ where
  decode := r.decode
  encode := r.encode
  schema := r.schema

end Record

end Untagged
