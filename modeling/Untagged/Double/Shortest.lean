import Untagged.Double

/-!
# The shortest decimal that identifies a number

The reals that round to a finite number form an interval whose ends lie half way
to its neighbours; the ends belong to it when the number's code is even.  Among
the decimals in that interval `shortest` takes one with the fewest digits and,
among those, the one nearest to the number.

A grid is the set of multiples of one power of ten.  If any point of a grid lies
in the interval, so does one of the two points next to the number, and those two
are all that is tried, on ever finer grids.
-/

namespace Untagged

/-- The decimal `digits * 10 ^ exponent`. -/
structure Decimal where
  digits : Nat
  exponent : Int
  deriving DecidableEq, Repr

namespace Decimal

/-- How many decimal digits a number has; zero has none. -/
def digitCount (n : Nat) : Nat := if n = 0 then 0 else (Nat.toDigits 10 n).length

/-- Drops up to `k` zeros at the end of a decimal, keeping its value. -/
def dropZeros : Nat → Decimal → Decimal
  | 0, d => d
  | k + 1, d =>
    if d.digits % 10 = 0 ∧ d.digits ≠ 0 then dropZeros k ⟨d.digits / 10, d.exponent + 1⟩ else d

/-- The exponent of a decimal's first digit. -/
def leadingExponent (d : Decimal) : Int := d.exponent + (digitCount d.digits : Int) - 1

end Decimal

namespace Double

/-- The end below a code's interval, in half units. -/
def lowerEnd (code : Nat) : Nat := unitsOf (code - 1) + unitsOf code

/-- The end above a code's interval, in half units. -/
def upperEnd (code : Nat) : Nat := unitsOf code + unitsOf (code + 1)

/-- Whether `num / den` units lie in the interval of reals that round to `code`. -/
def readsBack (code num den : Nat) : Bool :=
  let point := 2 * num
  let low := lowerEnd code * den
  let high := upperEnd code * den
  if code % 2 = 0 then low ≤ point && point ≤ high else low < point && point < high

/-- The exponent of the first decimal digit of `num / den`, for `0 < num`. -/
def leadingDigitExponent (num den : Nat) : Int :=
  if den ≤ num then (Decimal.digitCount (num / den) : Int) - 1
  else -(Decimal.digitCount ((den - 1) / num) : Int)

/-- A power of ten as a numerator and a denominator. -/
def tenPowerQuotient : Int → Nat × Nat
  | .ofNat k => (Nat.pow 10 k, 1)
  | .negSucc k => (1, Nat.pow 10 (k + 1))

/-- The point of the grid of multiples of `10 ^ exponent` that identifies `code`,
if one of the two points next to it does: the nearer one, and of two equally near
ones the even one. -/
def onGrid (code : Nat) (exponent : Int) : Option Decimal :=
  let (up, down) := tenPowerQuotient exponent
  let num := unitsOf code * down
  let den := one * up
  let below := num / den
  let hit (d : Nat) : Bool := readsBack code (d * den) down
  let nearest := roundQuotient num den
  if hit nearest then some ⟨nearest, exponent⟩
  else if hit below then some ⟨below, exponent⟩
  else if hit (below + 1) then some ⟨below + 1, exponent⟩
  else none

/-- Tries the grids from the one at `exponent` to ever finer ones, `n` of them. -/
def firstGrid (code : Nat) : Nat → Int → Option Decimal
  | 0, _ => none
  | n + 1, exponent =>
    match onGrid code exponent with
    | some d => some d
    | none => firstGrid code n (exponent - 1)

/-- The exact value of a code as a decimal.  Half a unit is `5 / 10` of one, so
`2 ^ (-1074)` is `5 ^ 1074 * 10 ^ (-1074)`. -/
def exactDecimal (code : Nat) : Decimal := ⟨unitsOf code * Nat.pow 5 1074, -1074⟩

/-- The shortest decimal that identifies a finite magnitude.  Seventeen digits
are enough for every number. -/
def shortest (code : Nat) : Decimal :=
  if code = 0 then ⟨0, 0⟩
  else
    match firstGrid code 17 (leadingDigitExponent (unitsOf code) one) with
    | some d => Decimal.dropZeros 17 d
    | none => exactDecimal code

end Double

end Untagged
