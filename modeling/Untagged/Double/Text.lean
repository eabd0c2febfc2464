import Untagged.Double.Shortest

/-!
# Numbers as text

`Double.toText` writes a finite number with the digits of its shortest decimal:
positionally, always with a fraction, while the exponent of the first digit is at
least -5 and below 16, and as digits with a signed exponent outside that range.

`Double.ofText?` reads a number written in decimal, correctly rounded, and the
names of infinity and NaN in any case.
-/

namespace Untagged.Double

/-- The least exponent of a first digit that is written positionally. -/
def plainFrom : Int := -5

/-- The first exponent that is no longer written positionally. -/
def plainBelow : Int := 16

/-- Digits with the point behind the first `k + 1` of them, filled with zeros on
either side as needed.  A negative `k` puts the point before the digits. -/
def plainText (digits : String) : Int → String
  | .ofNat k =>
    let whole := k + 1
    if digits.length ≤ whole then
      digits ++ String.ofList (List.replicate (whole - digits.length) '0') ++ ".0"
    else
      String.ofList (digits.toList.take whole) ++ "." ++ String.ofList (digits.toList.drop whole)
  | .negSucc k => "0." ++ String.ofList (List.replicate k '0') ++ digits

/-- Digits with the point behind the first, and a signed exponent. -/
def scientificText (digits : String) (exponent : Int) : String :=
  let mantissa :=
    if digits.length ≤ 1 then digits
    else String.ofList (digits.toList.take 1) ++ "." ++ String.ofList (digits.toList.drop 1)
  let sign := if exponent < 0 then "-" else "+"
  mantissa ++ "e" ++ sign ++ toString exponent.natAbs

def decimalText (d : Decimal) : String :=
  let exponent := if d.digits = 0 then 0 else d.leadingExponent
  if plainFrom ≤ exponent ∧ exponent < plainBelow then plainText (toString d.digits) exponent
  else scientificText (toString d.digits) exponent

def toText (x : Double) : String :=
  (if x.isNegative then "-" else "") ++ decimalText (shortest x.code)

/-! ## Reading -/

/-- The value of a run of decimal digits, continuing from `start`. -/
def digitsValue (start : Nat) (digits : List Char) : Nat :=
  digits.foldl (fun n c => 10 * n + (c.toNat - '0'.toNat)) start

/-- The exponent behind the mark, or 0 where the text ends before the mark. -/
def exponentOf? : List Char → Option Int
  | [] => some 0
  | mark :: rest =>
    if mark ≠ 'e' ∧ mark ≠ 'E' then none
    else
      let (negative, digits) :=
        match rest with
        | '-' :: ds => (true, ds)
        | '+' :: ds => (false, ds)
        | ds => (false, ds)
      if digits.isEmpty || !digits.all Char.isDigit then none
      else
        let n : Int := digitsValue 0 digits
        some (if negative then -n else n)

/-- The number nearest to `digits * 10 ^ exponent`.  An exponent so large or so
small that the digits cannot bring the value back into range is decided without
computing the power. -/
def ofDecimal (negative : Bool) (digits : Nat) (exponent : Int) : Double :=
  let size : Int := Decimal.digitCount digits
  if digits = 0 ∨ exponent + size < -400 then ofCode negative 0
  else if 400 < exponent + size then infinity negative
  else
    match exponent with
    | .ofNat k => ofQuotient negative (digits * Nat.pow 10 k) 1
    | .negSucc k => ofQuotient negative digits (Nat.pow 10 (k + 1))

/-- Reads digits, with an optional point and an optional exponent. -/
def ofDigits? (negative : Bool) (cs : List Char) : Option Double := do
  let whole := cs.takeWhile Char.isDigit
  let rest := cs.dropWhile Char.isDigit
  let (fraction, rest) :=
    match rest with
    | '.' :: ds => (ds.takeWhile Char.isDigit, ds.dropWhile Char.isDigit)
    | ds => ([], ds)
  if whole.isEmpty && fraction.isEmpty then none
  else
    let exponent ← exponentOf? rest
    let digits := digitsValue (digitsValue 0 whole) fraction
    some (ofDecimal negative digits (exponent - fraction.length))

/-- Reads a number: an optional sign, then digits or the name of a number that
has none. -/
def ofText? (text : String) : Option Double :=
  let (negative, body) :=
    match text.toList with
    | '-' :: cs => (true, cs)
    | '+' :: cs => (false, cs)
    | cs => (false, cs)
  let name := body.map Char.toLower
  if name = "inf".toList ∨ name = "infinity".toList then some (infinity negative)
  else if name = "nan".toList then some (if negative then nan.negate else nan)
  else ofDigits? negative body

end Untagged.Double
