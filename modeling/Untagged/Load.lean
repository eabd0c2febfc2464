import Untagged.Files
import Untagged.UnionChoice

/-!
# Loading documents

A document is read from a file and decoded as a union.  A `LoadedValue` is what the
commands report of it: the variant, the value it is encoded as, that value as text,
and the findings.
-/

namespace Untagged

/-- Why a document is not loaded. -/
inductive LoadError where
  | unread (path : String) (e : FileError)
  | undecoded (path union : String) (e : DecodeError)
  deriving DecidableEq

namespace LoadError

def message : LoadError → String
  | unread path e => "Failed to read " ++ path ++ ": " ++ e.message
  | undecoded path union e => "Failed to decode " ++ path ++ " as " ++ union ++ ": " ++ e.message

/-- The failure to decode behind an error, if that is what it is. -/
def cause? : LoadError → Option DecodeError
  | unread _ _ => none
  | undecoded _ _ e => some e

end LoadError

/-- What is reported about a decoded document. -/
structure LoadedValue where
  variant : String
  /-- What the document is encoded as. -/
  value : Json
  /-- The same as text. -/
  rendered : String
  findings : List Finding

section

variable {m : Type → Type} [Monad m] [FileSystem m]

/-- Reads a document. -/
def readDocument (path : String) : m (Except LoadError String) := do
  return (← FileSystem.readText path).mapError (.unread path)

namespace Union

variable {α : Type}

/-- Decodes a document that was read from a file. -/
def decodeFile (u : Union α) (path text : String) : Attempt LoadError (OneOf α) :=
  ((u.decodeText text).mapError (.undecoded path u.name)).telling [.decoding path u.name]

/-- Decodes what reading a file returned. -/
def decodeLoaded (u : Union α) (path : String) (read : Except LoadError String) :
    Attempt LoadError (OneOf α) :=
  match read with
  | .ok text => u.decodeFile path text
  | .error e => .fail e

/-- Reads a document and decodes it. -/
def load (u : Union α) (path : String) : m (Attempt LoadError (OneOf α)) := do
  return u.decodeLoaded path (← readDocument path)

/-- What is reported about a value. -/
def loadedValue (u : Union α) (pretty : Bool) (x : OneOf α) : LoadedValue where
  variant := (u.variantName? x).getD ""
  value := u.toJson x
  rendered := if pretty then u.prettyText x else u.compactText x
  findings := u.validate x

end Union

namespace UnionChoice

/-- Reads a document and decodes it as the union. -/
def load (u : UnionChoice) (path : String) (pretty : Bool) :
    m (Attempt LoadError LoadedValue) := do
  match u with
  | fruitReq => return (← Untagged.fruitReq.load path).map (Untagged.fruitReq.loadedValue pretty)

end UnionChoice

end

end Untagged
