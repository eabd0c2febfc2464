import Untagged.Double.Shortest

/-!
# TOML values

A table knows how it came about, because that decides what may still be added to
it: an inline table is complete, a table of its own header may be given once, and
one that was only passed through may still get its header.

Integers and floats are kept as they are written, at any size.  `Toml.isHeld` says
whether all numbers in a value fit the machine: 128 bits for an integer, a finite
binary64 number for a float that is not written as infinity.
-/

namespace Untagged

namespace Toml

/-- How a table came about. -/
inductive Origin where
  /-- Written in braces. -/
  | inline
  /-- Opened by a header of its own. -/
  | header
  /-- Passed through by the header of a table inside it. -/
  | passed
  /-- Made by a key with dots. -/
  | dotted
  deriving DecidableEq, Repr

/-- The size of a float. -/
inductive FloatSize where
  | infinite
  | notNumber
  | decimal (d : Decimal)
  deriving DecidableEq, Repr

/-- A key: the names before the dots, and the last name. -/
structure Key where
  parents : List String
  name : String
  deriving DecidableEq, Repr

end Toml

/-- A TOML value. -/
inductive Toml where
  | string (s : String)
  | boolean (b : Bool)
  | integer (i : Int)
  | float (negative : Bool) (size : Toml.FloatSize)
  /-- A date, a time of day, or both. -/
  | moment
  /-- `growing` tells an array of tables, to which headers add. -/
  | array (growing : Bool) (items : List Toml)
  | table (origin : Toml.Origin) (members : List (String × Toml))

namespace Decimal

/-- Every decimal from this one on is rounded to infinity: half a unit above the
greatest finite number. -/
def infinityBound : Nat := Nat.pow 2 1024 - Nat.pow 2 970

/-- Whether a decimal is too large for a finite binary64 number.  The exponents of the
first digits settle all but the sizes near the bound. -/
def overflows (d : Decimal) : Bool :=
  if d.digits = 0 then false
  else if d.leadingExponent > 400 then true
  else if d.leadingExponent < 0 then false
  else
    match d.exponent with
    | .ofNat k => decide (infinityBound ≤ d.digits * Nat.pow 10 k)
    | .negSucc k => decide (infinityBound * Nat.pow 10 (k + 1) ≤ d.digits)

end Decimal

namespace Toml

/-- The member of that name. -/
def lookup? (name : String) : List (String × Toml) → Option Toml
  | [] => none
  | (n, v) :: ms => if n = name then some v else lookup? name ms

/-- Whether a float has a binary64 value. -/
def FloatSize.isHeld : FloatSize → Bool
  | infinite | notNumber => true
  | decimal d => !d.overflows

/-- Whether an integer fits 128 bits, signed or unsigned. -/
def integerIsHeld : Int → Bool
  | .ofNat n => n < Nat.pow 2 128
  | .negSucc n => n < Nat.pow 2 127

mutual

/-- Whether all numbers in a value fit the machine. -/
def isHeld : Toml → Bool
  | string _ | boolean _ | moment => true
  | integer i => integerIsHeld i
  | float _ size => size.isHeld
  | array _ items => allHeld items
  | table _ members => membersHeld members

def allHeld : List Toml → Bool
  | [] => true
  | v :: vs => isHeld v && allHeld vs

def membersHeld : List (String × Toml) → Bool
  | [] => true
  | (_, v) :: ms => isHeld v && membersHeld ms

end

end Toml

end Untagged
