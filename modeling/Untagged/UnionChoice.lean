import Untagged.Schema.Document
import Untagged.Union.Codec
import Untagged.Unions.Fruit

/-!
# The unions of the command line

The unions that a user can ask for by name.  There is one, the fruit requests,
which is also the default.
-/

namespace Untagged

/-- A union that a user can ask for. -/
inductive UnionChoice where
  | fruitReq
  deriving DecidableEq, Repr

namespace UnionChoice

/-- All of them, in the order in which they are offered. -/
def all : List UnionChoice := [fruitReq]

/-- The one that is meant where none is asked for. -/
def default : UnionChoice := fruitReq

/-- The name of the union. -/
def name : UnionChoice → String
  | fruitReq => Untagged.fruitReq.name

/-- What a user writes for it. -/
def value : UnionChoice → String
  | fruitReq => "fruit-req"

/-- The case of ASCII letters aside, whether two texts are the same. -/
def sameIgnoringCase (a b : String) : Bool := a.map Char.toLower == b.map Char.toLower

/-- The union that a user means, if any. -/
def parse? (ignoreCase : Bool) (text : String) : Option UnionChoice :=
  all.find? fun u => if ignoreCase then sameIgnoringCase u.value text else u.value == text

/-- The message for a text that means none of them. -/
def unknown (text : String) : String := "invalid variant: " ++ text

def schema : UnionChoice → TypeSchema
  | fruitReq => Untagged.fruitReq.schema

end UnionChoice

end Untagged
