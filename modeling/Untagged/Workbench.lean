import Untagged.Catalogue
import Untagged.Union.Input

/-!
# The workbench

A workbench holds named values of one union and named documents.  A `Step` makes,
moves, compares or shows some of them; every step has an answer and leaves a
workbench behind (`Workbench.step`).  A step that fails stores nothing.
-/

namespace Untagged

/-- Things by name, in ascending order of the names. -/
abbrev Slots (α : Type) := List (String × α)

namespace Slots

variable {α : Type}

/-- What is stored under a name. -/
def get? (slots : Slots α) (name : String) : Option α :=
  (slots.find? fun s => s.1 = name).map Prod.snd

/-- Stores a thing under a name, in place of what was there. -/
def put (slots : Slots α) (name : String) (a : α) : Slots α :=
  match slots with
  | [] => [(name, a)]
  | (n, b) :: rest =>
    if name = n then (name, a) :: rest
    else if name < n then (name, a) :: (n, b) :: rest
    else (n, b) :: put rest name a

/-- Removes what is stored under a name. -/
def remove (slots : Slots α) (name : String) : Slots α := slots.filter fun s => s.1 ≠ name

end Slots

/-- The values and documents at hand. -/
structure Workbench (α : Type) where
  values : Slots (OneOf α)
  documents : Slots Json

/-- One thing to do.  Values and documents are stored under `target` and taken from
`source`. -/
inductive Step where
  /-- An empty value. -/
  | empty (target : String)
  | decode (input : Input) (target : String)
  /-- A variant from its fields; without a variant an empty value. -/
  | build (variant : Option String) (fields : Json) (target : String)
  | copy (source target : String)
  /-- Takes the variant out of a value and wraps it anew. -/
  | take (source target : String)
  /-- Decodes the text of a value. -/
  | recode (source target : String)
  /-- Decodes the JSON value of a value. -/
  | revalue (source target : String)
  /-- Decodes a document. -/
  | replay (source target : String)
  /-- Applies one candidate to a document. -/
  | attempt (variant source target : String)
  /-- Reads a document from text. -/
  | buffer (text target : String)
  | scan (source : String)
  /-- Compares two documents. -/
  | same (source other : String)
  /-- Compares two values. -/
  | compare (source other : String)
  | look (source : String)
  | list
  | slots

/-- What a step answers. -/
inductive Answer (α : Type) where
  | value (x : OneOf α)
  | document (v : Json)
  | equalDocuments (equal : Bool)
  | equalValues (equal sameVariant : Bool)
  /-- All values, in ascending order of their names. -/
  | values (all : Slots (OneOf α))
  /-- The text of the array of all values. -/
  | text (json : String)
  | noSlot (name : String)
  | noVariant (name : String)
  | unpopulated (name : String)
  | rejected (r : Rejection)
  | unbuilt (e : BuildError)
  | undecoded (e : InputError)
  | notJson (e : Json.Error)

namespace Workbench

variable {α : Type}

/-- Nothing at hand. -/
def bare : Workbench α := ⟨[], []⟩

/-- Stores a value and answers with it. -/
def keep (w : Workbench α) (target : String) (x : OneOf α) : Answer α × Workbench α :=
  (.value x, { w with values := w.values.put target x })

/-- Stores a decoded value, or answers with the failure. -/
def keepDecoded (w : Workbench α) (target : String) (x : Except InputError (OneOf α)) :
    Answer α × Workbench α :=
  match x with
  | .ok x => w.keep target x
  | .error e => (.undecoded e, w)

/-- Goes on with the value of a name, if there is one. -/
def withValue (w : Workbench α) (name : String)
    (use : OneOf α → Answer α × Workbench α) : Answer α × Workbench α :=
  match w.values.get? name with
  | some x => use x
  | none => (.noSlot name, w)

/-- Goes on with the document of a name, if there is one. -/
def withDocument (w : Workbench α) (name : String)
    (use : Json → Answer α × Workbench α) : Answer α × Workbench α :=
  match w.documents.get? name with
  | some v => use v
  | none => (.noSlot name, w)

/-- The variant of the given name, built from fields, or an empty value. -/
def built (entry : Entry α) (variant : Option String) (fields : Json) :
    Except BuildError (OneOf α) :=
  match variant with
  | none => .ok .empty
  | some name => (entry.construct name fields).map .holding

/-- Does one step. -/
def step (entry : Entry α) (w : Workbench α) : Step → Answer α × Workbench α
  | .empty target => w.keep target .empty
  | .decode input target => w.keepDecoded target (entry.union.decodeInput input).outcome
  | .build variant fields target =>
    match built entry variant fields with
    | .ok x => w.keep target x
    | .error e => (.unbuilt e, w)
  | .copy source target => w.withValue source (w.keep target)
  | .take source target =>
    w.withValue source fun x =>
      let rest := { w with values := w.values.remove source }
      match x.variant? with
      | some a => rest.keep target (.holding a)
      | none => (.unpopulated source, rest)
  | .recode source target =>
    w.withValue source fun x =>
      w.keepDecoded target (entry.union.decodeInput (.text (entry.union.compactText x))).outcome
  | .revalue source target =>
    w.withValue source fun x =>
      w.keepDecoded target (entry.union.decodeInput (.value (entry.union.toJson x))).outcome
  | .replay source target =>
    w.withDocument source fun v =>
      w.keepDecoded target (entry.union.decodeInput (.value v)).outcome
  | .attempt variant source target =>
    w.withDocument source fun v =>
      match entry.union.candidates.find? fun c => c.name = variant with
      | none => (.noVariant variant, w)
      | some c =>
        match (c.decode v).outcome with
        | .ok a => w.keep target (.holding a)
        | .error r => (.rejected r, w)
  | .buffer text target =>
    match Json.ofText text with
    | .ok v => (.document v, { w with documents := w.documents.put target v })
    | .error e => (.notJson e, w)
  | .scan source => w.withDocument source fun v => (.document v, w)
  | .same source other =>
    match w.documents.get? source, w.documents.get? other with
    | some v, some v' => (.equalDocuments (v.same v'), w)
    | _, _ => (.noSlot source, w)
  | .compare source other =>
    match w.values.get? source, w.values.get? other with
    | some x, some y =>
      (.equalValues (entry.union.sameValue x y)
        (entry.union.variantName? x == entry.union.variantName? y), w)
    | _, _ => (.noSlot source, w)
  | .look source => w.withValue source fun x => (.value x, w)
  | .list =>
    (.text (Datum.compactText (.sequence (w.values.map fun s => entry.union.toDatum s.2))), w)
  | .slots => (.values w.values, w)

/-- Does steps one after the other. -/
def run (entry : Entry α) (w : Workbench α) : List Step → List (Answer α)
  | [] => []
  | s :: rest =>
    let (answer, next) := w.step entry s
    answer :: next.run entry rest

end Workbench

end Untagged
