/-!
# Binary64 numbers

A `Double` is the 64-bit pattern of an IEEE 754 binary64 number.  Below the sign
bit the pattern is a *code*, a natural number that grows with the magnitude: the
codes below `2 ^ 52` are the subnormals, each further block of `2 ^ 52` codes is
one binade, and `infinityCode` and what lies above it stands for infinity and the
NaNs.

Magnitudes are counted in units of the smallest subnormal, `2 ^ (-1074)`, so that
every finite magnitude is a natural number (`units`).  Rounding happens in one
place: `nearestCode` takes a quotient of naturals, again in these units, to the
nearest code, a tie going to the even code.  Products, quotients and conversions
round the exact result once through it.
-/

namespace Untagged

/-- A binary64 number, given by its bits.  Equality is equality of the bits; the
numeric comparison, in which NaN differs from itself and the zeros are equal, is
`Double.equal`. -/
structure Double where
  bits : UInt64
  deriving DecidableEq, Repr

/-- Rounds the quotient `num / den` to a whole number, a half going to the even
neighbour. -/
def roundQuotient (num den : Nat) : Nat :=
  let q := num / den
  let r := num % den
  if 2 * r < den then q
  else if 2 * r = den then q + q % 2
  else q + 1

namespace Double

/-- The number of bits of the stored significand. -/
def fractionBits : Nat := 52

/-- The number of codes in a binade, which is the value of the hidden bit too. -/
def binade : Nat := Nat.pow 2 fractionBits

def signBit : Nat := Nat.pow 2 63

/-- The code of infinity; every smaller code is a finite magnitude. -/
def infinityCode : Nat := 2047 * binade

/-- How many units make one: the smallest subnormal is `1 / one`. -/
def one : Nat := Nat.pow 2 1074

def isNegative (x : Double) : Bool := signBit ≤ x.bits.toNat

/-- The code of the magnitude: the bits below the sign. -/
def code (x : Double) : Nat := x.bits.toNat % signBit

def isFinite (x : Double) : Bool := x.code < infinityCode

def isNaN (x : Double) : Bool := infinityCode < x.code

/-- A number from its sign and the code of its magnitude. -/
def ofCode (negative : Bool) (code : Nat) : Double :=
  ⟨UInt64.ofNat (if negative then signBit + code else code)⟩

def zero : Double := ofCode false 0

def infinity (negative : Bool) : Double := ofCode negative infinityCode

def nan : Double := ofCode false (infinityCode + binade / 2)

/-- The integer significand of a code: a subnormal has its code, a normal number
its lower bits under the hidden one. -/
def significandOf (code : Nat) : Nat :=
  if code < binade then code else binade + code % binade

/-- The power of two that scales the significand, in units. -/
def scaleOf (code : Nat) : Nat := code / binade - 1

/-- The magnitude that a code stands for, in units.  At `infinityCode` it is the
magnitude that the next number would have, so that the gap above the largest
number is like every other gap. -/
def unitsOf (code : Nat) : Nat := significandOf code * Nat.pow 2 (scaleOf code)

def units (x : Double) : Nat := unitsOf x.code

/-- The code nearest to `num / den` units, a tie going to the even code.
The result is `infinityCode` or more when the quotient is too large. -/
def nearestCode (num den : Nat) : Nat :=
  let scale := (num / den).log2 - fractionBits
  roundQuotient num (den * Nat.pow 2 scale) + scale * binade

/-- The number nearest to `num / den`, infinite where that is too large. -/
def ofQuotient (negative : Bool) (num den : Nat) : Double :=
  ofCode negative (min infinityCode (nearestCode (num * one) den))

def ofNat (n : Nat) : Double := ofQuotient false n 1

/-- The number nearest to an integer.  Zero is the positive zero. -/
def ofInt : Int → Double
  | .ofNat n => ofNat n
  | .negSucc n => ofQuotient true (n + 1) 1

def tenPower (k : Nat) : Double := ofNat (Nat.pow 10 k)

/-- The same magnitude with the other sign. -/
def negate (x : Double) : Double := ofCode (!x.isNegative) x.code

/-- The product of two finite numbers, rounded once. -/
def mul (x y : Double) : Double :=
  ofQuotient (x.isNegative != y.isNegative) (x.units * y.units) (one * one)

/-- The quotient of a finite number by a finite number other than zero, rounded
once. -/
def div (x y : Double) : Double :=
  ofQuotient (x.isNegative != y.isNegative) x.units y.units

/-- Numeric equality: NaN is unequal to itself and the two zeros are equal. -/
def equal (x y : Double) : Bool :=
  if x.isNaN || y.isNaN then false
  else x.bits == y.bits || (x.code == 0 && y.code == 0)

end Double

end Untagged
