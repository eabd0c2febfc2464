import Untagged.Toml.Moment

/-!
# Words

What is not in quotes or brackets is a word: a boolean, a number or a moment.
Digits may be grouped by single underscores between them, and a decimal number
does not start with a superfluous zero.
-/

namespace Untagged.Toml

/-- Digits without the underscores that group them.  Every underscore stands between
two digits. -/
def grouped? (isDigit : Char → Bool) : Chars → Option Chars
  | [] => none
  | [c] => if isDigit c then some [c] else none
  | c :: '_' :: cs => if isDigit c then (grouped? isDigit cs).map (c :: ·) else none
  | c :: d :: cs => if isDigit c then (grouped? isDigit (d :: cs)).map (c :: ·) else none

/-- The number with the given digits. -/
def valueIn (base : Nat) (digits : Chars) : Nat :=
  digits.foldl (fun n c => base * n + (hexDigit? c).getD 0) 0

/-- Splits off a sign; `true` is the negative one. -/
def signOf : Chars → Bool × Chars
  | '+' :: cs => (false, cs)
  | '-' :: cs => (true, cs)
  | cs => (false, cs)

/-- The number with a sign. -/
def withSign (negative : Bool) (n : Nat) : Int := if negative then -n else n

/-- The digits before the point. -/
def wholeDigits? (s : Chars) : Option Chars := do
  let digits ← grouped? Char.isDigit s
  if digits.length > 1 && digits.head? = some '0' then none else some digits

/-- Whether a character is a digit of a base up to sixteen. -/
def isDigitIn (base : Nat) (c : Char) : Bool :=
  match hexDigit? c with
  | some n => n < base
  | none => false

/-- A number of another base, behind its mark. -/
def based? (base : Nat) (s : Chars) : Option Int :=
  (grouped? (isDigitIn base) s).map fun digits => (valueIn base digits : Int)

/-- An integer. -/
def integer? : Chars → Option Int
  | '0' :: 'x' :: s => based? 16 s
  | '0' :: 'o' :: s => based? 8 s
  | '0' :: 'b' :: s => based? 2 s
  | s => do
    let (negative, s) := signOf s
    some (withSign negative (valueIn 10 (← wholeDigits? s)))

/-- Splits off digits and underscores. -/
def spanGroup (s : Chars) : Chars × Chars := s.span fun c => c.isDigit || c = '_'

/-- The exponent behind its mark. -/
def exponent? (s : Chars) : Option Int := do
  let (negative, s) := signOf s
  some (withSign negative (valueIn 10 (← grouped? Char.isDigit s)))

def isExponentMark (c : Char) : Bool := c = 'e' || c = 'E'

/-- A decimal from its digits before and behind the point and its exponent. -/
def decimalOf (whole fraction : Chars) (exponent : Int) : Decimal where
  digits := valueIn 10 (whole ++ fraction)
  exponent := exponent - fraction.length

/-- A decimal with a fraction, an exponent or both. -/
def decimal? (s : Chars) : Option Decimal := do
  let (whole, rest) := spanGroup s
  let whole ← wholeDigits? whole
  match rest with
  | [] => none
  | c :: rest =>
    if c = '.' then
      let (fraction, rest) := spanGroup rest
      let fraction ← grouped? Char.isDigit fraction
      match rest with
      | [] => some (decimalOf whole fraction 0)
      | e :: rest =>
        if isExponentMark e then some (decimalOf whole fraction (← exponent? rest)) else none
    else if isExponentMark c then some (decimalOf whole [] (← exponent? rest))
    else none

/-- A float. -/
def float? (s : Chars) : Option Toml := do
  let (negative, s) := signOf s
  if s = ['i', 'n', 'f'] then some (.float negative .infinite)
  else if s = ['n', 'a', 'n'] then some (.float negative .notNumber)
  else some (.float negative (.decimal (← decimal? s)))

/-- The value of a word. -/
def ofWord? (s : Chars) : Option Toml :=
  if s = ['t', 'r', 'u', 'e'] then some (.boolean true)
  else if s = ['f', 'a', 'l', 's', 'e'] then some (.boolean false)
  else if isMoment s then some .moment
  else
    match integer? s with
    | some i => some (.integer i)
    | none => float? s

/-- Whether a character may stand in a word. -/
def isWordChar (c : Char) : Bool :=
  c.isAlphanum || c = '+' || c = '-' || c = '_' || c = '.' || c = ':'

/-- A word at the front and its value.  A date goes on behind a blank if a digit
follows. -/
def word? (s : Chars) : Option (Toml × Chars) :=
  let (word, rest) := s.span isWordChar
  match rest with
  | ' ' :: c :: more =>
    if isDate word && c.isDigit then
      let (clock, rest) := (c :: more).span isWordChar
      (ofWord? (word ++ ' ' :: clock)).map fun v => (v, rest)
    else (ofWord? word).map fun v => (v, rest)
  | rest => (ofWord? word).map fun v => (v, rest)

end Untagged.Toml
