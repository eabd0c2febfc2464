import Untagged.Json.Basic
import Untagged.Json.Fault

/-!
# Reading numbers

A number's digits are collected into a significand below `2 ^ 64`.  Whole digits
that no longer fit are dropped, each adding one to the exponent; from the first
fraction digit that does not fit on, all are dropped.  A number without fraction
and exponent whose digits fit is an integer, except that `-0` and the numbers
below `-2 ^ 63` are floats.

A float is computed from significand and exponent by one conversion and one
multiplication or division by a power of ten, each rounded (`scaled?`).  So the
result is near the number written, but not always nearest to it.
-/

namespace Untagged.Json.Reader

/-- What was read and what is left of the input behind it. -/
abbrev Read (α : Type) := α × Bytes

def isDigit (b : UInt8) : Bool := 48 ≤ b && b ≤ 57

def digitValue (b : UInt8) : Nat := b.toNat - 48

def spanDigits : Bytes → Bytes × Bytes
  | [] => ([], [])
  | b :: bs =>
    if isDigit b then
      let (ds, rest) := spanDigits bs
      (b :: ds, rest)
    else ([], b :: bs)

/-- Appends digits to a significand while it stays below `2 ^ 64`, and returns it
with the digits from the first that does not fit on. -/
def absorb (significand : Nat) : Bytes → Nat × Bytes
  | [] => (significand, [])
  | d :: ds =>
    let next := 10 * significand + digitValue d
    if next ≤ 0xffff_ffff_ffff_ffff then absorb next ds else (significand, d :: ds)

/-- The greatest power of ten that a float is scaled by in one step. -/
def maxTenPower : Nat := 308

/-- Divides by `10 ^ maxTenPower` up to `n` times, stopping at zero. -/
def divideDown : Nat → Double → Double
  | 0, f => f
  | n + 1, f =>
    if f.code = 0 then f else divideDown n (f.div (Double.tenPower maxTenPower))

/-- `significand * 10 ^ exponent`, rounded at every step; none where it is too
large. -/
def scaled? (significand : Nat) (exponent : Int) : Option Double :=
  let f := Double.ofNat significand
  match exponent with
  | .ofNat k =>
    if k ≤ maxTenPower then
      let product := f.mul (Double.tenPower k)
      if product.isFinite then some product else none
    else if f.code = 0 then some f
    else none
  | .negSucc k =>
    let steps := k / maxTenPower
    let rest := k + 1 - steps * maxTenPower
    some ((divideDown steps f).div (Double.tenPower rest))

def signed (negative : Bool) (x : Double) : Double := if negative then x.negate else x

/-- The float read, where it is finite. -/
def floatNumber (negative : Bool) (x : Option Double) (rest : Bytes) :
    Except Fault (Read Number) :=
  match x.bind fun f => FiniteDouble.ofDouble? (signed negative f) with
  | some f => .ok (.float f, rest)
  | none => .error ⟨.numberOutOfRange, .behindLooking, rest, 0, false⟩

/-- A number without fraction and exponent. -/
def wholeNumber (negative : Bool) (significand : Nat) (rest : Bytes) :
    Except Fault (Read Number) :=
  let i : Int := if negative then -significand else significand
  match Integer.ofInt? i with
  | some n =>
    if negative && significand == 0 then floatNumber negative (some Double.zero) rest
    else .ok (.integer n, rest)
  | none => floatNumber negative (some (Double.ofNat significand)) rest

/-- The greatest exponent that is kept while it is read. -/
def maxExponent : Nat := 0x7fff_ffff

def shifted (start : Int) (up : Bool) (exponent : Nat) : Int :=
  if up then start + exponent else start - exponent

/-- The digits of an exponent, continuing from `exponent`.  One that grows beyond
`maxExponent` makes the number zero, or is out of range right behind that digit
where the number would be large. -/
def exponentDigits (negative : Bool) (significand : Nat) (start : Int) (up : Bool)
    (exponent : Nat) : Bytes → Except Fault (Read Number)
  | [] => floatNumber negative (scaled? significand (shifted start up exponent)) []
  | b :: bs =>
    if isDigit b then
      let next := 10 * exponent + digitValue b
      if next ≤ maxExponent then exponentDigits negative significand start up next bs
      else if significand ≠ 0 ∧ up = true then .error (.behind .numberOutOfRange bs)
      else floatNumber negative (some Double.zero) (spanDigits bs).2
    else
      floatNumber negative
        (scaled? significand (shifted start up exponent)) (b :: bs)

/-- The optional sign of an exponent: whether the exponent is positive, and what
stands behind the sign. -/
def exponentSign : Bytes → Bool × Bytes
  | [] => (true, [])
  | b :: r => if b = 43 then (true, r) else if b = 45 then (false, r) else (true, b :: r)

/-- The exponent behind its mark: an optional sign and at least one digit. -/
def exponentPart (negative : Bool) (significand : Nat) (start : Int) (s : Bytes) :
    Except Fault (Read Number) :=
  let (up, s) := exponentSign s
  match s with
  | [] => .error (.behind .eofValue [])
  | b :: r =>
    if isDigit b then exponentDigits negative significand start up (digitValue b) r
    else .error (.behind .invalidNumber r)

def isExponentMark (b : UInt8) : Bool := b = 101 || b = 69

/-- What follows the point: at least one digit, then an optional exponent. -/
def fractionPart (negative : Bool) (significand : Nat) (dropped : Nat) (s : Bytes) :
    Except Fault (Read Number) :=
  let (digits, rest) := spanDigits s
  if digits.isEmpty then
    .error (.ahead (if rest.isEmpty then .eofValue else .invalidNumber) rest)
  else
    let (total, unused) := absorb significand digits
    let exponent : Int := (dropped : Int) - (digits.length - unused.length : Nat)
    match rest with
    | [] => floatNumber negative (scaled? total exponent) []
    | b :: r =>
      if isExponentMark b then exponentPart negative total exponent r
      else floatNumber negative (scaled? total exponent) (b :: r)

/-- What follows the whole digits. -/
def afterWhole (negative : Bool) (digits : Bytes) (rest : Bytes) : Except Fault (Read Number) :=
  let (significand, unused) := absorb 0 digits
  let plain : Except Fault (Read Number) :=
    if unused.isEmpty then wholeNumber negative significand rest
    else floatNumber negative (scaled? significand unused.length) rest
  match rest with
  | [] => plain
  | b :: r =>
    if b = 46 then fractionPart negative significand unused.length r
    else if isExponentMark b then exponentPart negative significand unused.length r
    else plain

/-- A number behind its optional minus sign.  A leading zero stands alone. -/
def number (negative : Bool) : Bytes → Except Fault (Read Number)
  | [] => .error (.behind .eofValue [])
  | b :: r =>
    if b = 48 then
      match r with
      | d :: _ =>
        if isDigit d then .error (.ahead .invalidNumber r) else afterWhole negative [b] r
      | [] => afterWhole negative [b] r
    else if isDigit b then
      let (digits, rest) := spanDigits r
      afterWhole negative (b :: digits) rest
    else .error (.behind .invalidNumber r)

end Untagged.Json.Reader
