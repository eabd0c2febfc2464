import Untagged.Json.Datum

/-!
# Findings

What the validation of a decoded value has to say: a message, and the member it
is about where it is about a single one.
-/

namespace Untagged

structure Finding where
  member : Option String
  message : String
  deriving DecidableEq, Repr

namespace Finding

def ofValue (message : String) : Finding := ⟨none, message⟩

def ofMember (member message : String) : Finding := ⟨some member, message⟩

def display (f : Finding) : String :=
  match f.member with
  | some m => m ++ ": " ++ f.message
  | none => f.message

/-- The finding as data; the member is left out where there is none. -/
def toDatum (f : Finding) : Datum :=
  .record <|
    (match f.member with
      | some m => [("member", Datum.string m)]
      | none => [])
    ++ [("message", Datum.string f.message)]

end Finding

end Untagged
