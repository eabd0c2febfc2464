import Untagged.Double

/-!
# JSON values

A number is an integer between `-2 ^ 63` and `2 ^ 64 - 1`, or a finite binary64
number; both bounds are part of the types.  An object is the list of its members
in document order.  `Json.insertMember` is how a document's members are
collected: a repeated name keeps its first place and takes its last value, so the
names of a collected object are distinct.

The constructor of objects takes any list, since the type cannot speak of its own
values.  `Json.Body` is a value with distinct names among its own members, and
`Json.Document` one with distinct names at every depth.
-/

namespace Untagged

/-- A whole number that a JSON value can hold: a signed or an unsigned 64-bit
one. -/
structure Integer where
  val : Int
  lower : -0x8000_0000_0000_0000 ≤ val
  upper : val ≤ 0xffff_ffff_ffff_ffff
  deriving DecidableEq

namespace Integer

def ofInt? (i : Int) : Option Integer :=
  if h : -0x8000_0000_0000_0000 ≤ i ∧ i ≤ 0xffff_ffff_ffff_ffff then some ⟨i, h.1, h.2⟩
  else none

theorem ofInt?_val (i : Integer) : ofInt? i.val = some i := by
  rw [ofInt?, dif_pos ⟨i.lower, i.upper⟩]

def ofInt64 (i : Int64) : Integer where
  val := i.toInt
  lower := by have := i.le_toInt; omega
  upper := by have := i.toInt_lt; omega

def ofUInt64 (n : UInt64) : Integer where
  val := n.toNat
  lower := by omega
  upper := by have := n.toNat_lt; omega

def ofUInt8 (n : UInt8) : Integer where
  val := n.toNat
  lower := by omega
  upper := by have := n.toNat_lt; omega

end Integer

/-- A binary64 number that is neither infinite nor a NaN. -/
structure FiniteDouble where
  val : Double
  isFinite : val.isFinite = true
  deriving DecidableEq

namespace FiniteDouble

def ofDouble? (x : Double) : Option FiniteDouble :=
  if h : x.isFinite = true then some ⟨x, h⟩ else none

end FiniteDouble

inductive Number where
  | integer (i : Integer)
  | float (x : FiniteDouble)
  deriving DecidableEq

namespace Number

/-- The binary64 number nearest to a JSON number. -/
def toDouble : Number → Double
  | integer i => Double.ofInt i.val
  | float x => x.val

end Number

inductive Json where
  | null
  | boolean (b : Bool)
  | number (n : Number)
  | string (s : String)
  | array (items : List Json)
  | object (members : List (String × Json))

/-- What a JSON value is, by its first token. -/
inductive Kind where
  | null
  | boolean
  | number
  | string
  | array
  | object
  deriving DecidableEq, Repr

namespace Kind

def phrase : Kind → String
  | null => "null"
  | boolean => "a boolean"
  | number => "a number"
  | string => "a string"
  | array => "an array"
  | object => "an object"

/-- Whether the body of a union may be of the kind. -/
def isContainer : Kind → Bool
  | array | object => true
  | _ => false

end Kind

namespace Json

def kind : Json → Kind
  | null => .null
  | boolean _ => .boolean
  | number _ => .number
  | string _ => .string
  | array _ => .array
  | object _ => .object

/-- The top-level members, in document order; only an object has any. -/
def members : Json → List (String × Json)
  | object ms => ms
  | _ => []

def lookup? (name : String) : List (String × Json) → Option Json
  | [] => none
  | (n, v) :: ms => if n = name then some v else lookup? name ms

/-- Adds a member behind the others.  A name that is there already stays where it
is and takes the new value. -/
def insertMember (name : String) (value : Json) : List (String × Json) → List (String × Json)
  | [] => [(name, value)]
  | (n, v) :: ms =>
    if n = name then (n, value) :: ms else (n, v) :: insertMember name value ms

/-- The members of an object, collected from the pairs of a document. -/
def collect (pairs : List (String × Json)) : List (String × Json) :=
  pairs.foldl (fun ms p => insertMember p.1 p.2 ms) []

mutual

/-- Equality of values up to the order of members, at every depth.  An integer
never equals a float, and floats are compared as numbers. -/
def same : Json → Json → Bool
  | null, null => true
  | boolean a, boolean b => a == b
  | number (.integer i), number (.integer j) => i == j
  | number (.float x), number (.float y) => x.val.equal y.val
  | string s, string t => s == t
  | array xs, array ys => sameItems xs ys
  | object ms, object ns => ms.length == ns.length && sameMembers ms ns
  | _, _ => false

def sameItems : List Json → List Json → Bool
  | [], [] => true
  | x :: xs, y :: ys => same x y && sameItems xs ys
  | _, _ => false

/-- Whether every member has an equal one of the same name in the second list. -/
def sameMembers : List (String × Json) → List (String × Json) → Bool
  | [], _ => true
  | (name, v) :: ms, ns =>
    (match lookup? name ns with
      | some w => same v w
      | none => false) && sameMembers ms ns

end

end Json

end Untagged
