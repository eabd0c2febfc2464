import Untagged.Toml.Text

/-!
# Dates and times

A moment is a date, a time of day, or both; only both together may have an offset.
The seconds may be left out.  The functions here drop what they read from the
front.
-/

namespace Untagged.Toml

/-- A number of exactly `n` digits. -/
def digits? (value : Nat) : Nat → Chars → Option (Nat × Chars)
  | 0, cs => some (value, cs)
  | _ + 1, [] => none
  | n + 1, c :: cs => if c.isDigit then digits? (10 * value + (c.toNat - 48)) n cs else none

/-- Drops one character, which must be the expected one. -/
def expect? (expected : Char) : Chars → Option Chars
  | [] => none
  | c :: cs => if c = expected then some cs else none

/-- A number of two digits between two bounds. -/
def pair? (low high : Nat) (s : Chars) : Option (Nat × Chars) := do
  let (n, rest) ← digits? 0 2 s
  if low ≤ n && n ≤ high then some (n, rest) else none

def isLeapYear (year : Nat) : Bool := year % 4 = 0 && (year % 100 ≠ 0 || year % 400 = 0)

/-- How many days a month has. -/
def monthLength (year month : Nat) : Nat :=
  if month = 2 then (if isLeapYear year then 29 else 28)
  else if month = 4 || month = 6 || month = 9 || month = 11 then 30
  else 31

/-- A date. -/
def date? (s : Chars) : Option Chars := do
  let (year, s) ← digits? 0 4 s
  let (month, s) ← pair? 1 12 (← expect? '-' s)
  let (_, s) ← pair? 1 (monthLength year month) (← expect? '-' s)
  some s

/-- A fraction of a second, if there is one. -/
def fraction? : Chars → Option Chars
  | '.' :: s =>
    if (s.takeWhile Char.isDigit).isEmpty then none else some (s.dropWhile Char.isDigit)
  | s => some s

/-- The seconds, if there are any.  A minute may have a leap second. -/
def seconds? : Chars → Option Chars
  | ':' :: s => do
    let (_, s) ← pair? 0 60 s
    fraction? s
  | s => some s

/-- A time of day. -/
def clock? (s : Chars) : Option Chars := do
  let (_, s) ← pair? 0 23 s
  let (_, s) ← pair? 0 59 (← expect? ':' s)
  seconds? s

/-- An offset from universal time. -/
def offset? : Chars → Option Chars
  | [] => none
  | c :: s =>
    if c = 'Z' || c = 'z' then some s
    else if c = '+' || c = '-' then do
      let (_, s) ← pair? 0 23 s
      let (_, s) ← pair? 0 59 (← expect? ':' s)
      some s
    else none

/-- Whether a text is a date. -/
def isDate (s : Chars) : Bool := date? s = some []

/-- Whether a text is a time of day, with or without an offset. -/
def isOffsetClock (s : Chars) : Bool :=
  match clock? s with
  | some [] => true
  | some rest => offset? rest = some []
  | none => false

/-- Whether a text is a moment. -/
def isMoment (s : Chars) : Bool :=
  match date? s with
  | some [] => true
  | some (c :: rest) => (c = 'T' || c = 't' || c = ' ') && isOffsetClock rest
  | none => clock? s = some []

example : isMoment "2024-02-29T07:32:00.5-07:00".toList = true := by decide +kernel

example : isMoment "2023-02-29".toList = false := by decide +kernel

end Untagged.Toml
