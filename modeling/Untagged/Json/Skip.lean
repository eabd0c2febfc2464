import Untagged.Json.Reader

/-!
# Skipping values

A typed reader passes over the members it does not know.  What it passes over is
checked for syntax only: numbers may be of any size, strings need not be text and
their escapes need not form characters, and there is no limit on depth.

The grammar is read more coarsely here than where a value is kept.  Behind a comma
there must be another item or member, whatever follows; and a number that stops
short is invalid, even at the end of the input.
-/

namespace Untagged.Json.Skip

open Reader

/-- The digits of an exponent behind its mark. -/
def exponent (s : Bytes) : Except Fault Bytes :=
  match (exponentSign s).2 with
  | [] => .error (.behind .invalidNumber [])
  | b :: r => if isDigit b then .ok (spanDigits r).2 else .error (.behind .invalidNumber r)

/-- An optional exponent. -/
def optionalExponent : Bytes → Except Fault Bytes
  | [] => .ok []
  | b :: r => if isExponentMark b then exponent r else .ok (b :: r)

/-- What follows the whole digits of a number. -/
def afterWhole : Bytes → Except Fault Bytes
  | [] => .ok []
  | b :: r =>
    if b = 46 then
      let (digits, rest) := spanDigits r
      if digits.isEmpty then .error (.ahead .invalidNumber rest) else optionalExponent rest
    else optionalExponent (b :: r)

/-- A number behind its optional minus sign. -/
def number : Bytes → Except Fault Bytes
  | [] => .error (.behind .invalidNumber [])
  | b :: r =>
    if b = 48 then
      match r with
      | d :: _ => if isDigit d then .error (.ahead .invalidNumber r) else afterWhole r
      | [] => .ok []
    else if isDigit b then afterWhole (spanDigits r).2
    else .error (.behind .invalidNumber r)

/-- The escape behind a backslash. -/
def escape : Bytes → Except Fault Bytes
  | [] => .error (.behind .eofString [])
  | letter :: rest =>
    if (shortEscape? letter).isSome then .ok rest
    else if letter = 117 then (hexEscape rest).map Prod.snd
    else .error (.behind .invalidEscape rest)

/-- A string behind its opening quote.  A control character is noticed before it is
consumed. -/
def stringFrom : Nat → Bytes → Except Fault Bytes
  | _, [] => .error (.behind .eofString [])
  | 0, _ => .error (.behind .eofString [])
  | fuel + 1, b :: rest =>
    if b = 34 then .ok rest
    else if b = 92 then do stringFrom fuel (← escape rest)
    else if b < 32 then .error (.behind .controlCharacter (b :: rest))
    else stringFrom fuel rest

def string (s : Bytes) : Except Fault Bytes := stringFrom s.length s

/-- The items of an array from the first one on, and its closing bracket. -/
def items (item : Bytes → Except Fault Bytes) : Nat → Bytes → Except Fault Bytes
  | 0, _ => .error (.ahead .eofList [])
  | fuel + 1, s => do
    let rest ← item s
    match skipBlanks rest with
    | [] => .error (.ahead .eofList [])
    | b :: r =>
      if b = 93 then .ok r
      else if b = 44 then items item fuel r
      else .error (.ahead .expectedListEnd (b :: r))

/-- The members of an object from the first one on, and its closing brace. -/
def members (item : Bytes → Except Fault Bytes) : Nat → Bytes → Except Fault Bytes
  | 0, _ => .error (.ahead .eofObject [])
  | fuel + 1, s =>
    match skipBlanks s with
    | [] => .error (.ahead .eofObject [])
    | b :: r =>
      if b = 34 then do
        let rest ← item (← colon (← string r))
        match skipBlanks rest with
        | [] => .error (.ahead .eofObject [])
        | b :: r =>
          if b = 125 then .ok r
          else if b = 44 then members item fuel r
          else .error (.ahead .expectedObjectEnd (b :: r))
      else .error (.ahead .keyNotString (b :: r))

/-- A value, where `inner` passes over the values it holds. -/
def valueOver (inner : Bytes → Except Fault Bytes) (s : Bytes) : Except Fault Bytes :=
  match skipBlanks s with
  | [] => .error (.ahead .eofValue [])
  | b :: r =>
    if b = 110 then keyword [117, 108, 108] r
    else if b = 116 then keyword [114, 117, 101] r
    else if b = 102 then keyword [97, 108, 115, 101] r
    else if b = 45 then number r
    else if isDigit b then number (b :: r)
    else if b = 34 then string r
    else if b = 91 then
      match skipBlanks r with
      | [] => .error (.ahead .eofList [])
      | c :: t => if c = 93 then .ok t else items inner (t.length + 1) (c :: t)
    else if b = 123 then
      match skipBlanks r with
      | [] => .error (.ahead .eofObject [])
      | c :: t => if c = 125 then .ok t else members inner (t.length + 1) (c :: t)
    else .error (.ahead .expectedValue (b :: r))

/-- A value of at most `depth` levels. -/
def valueWithin : Nat → Bytes → Except Fault Bytes
  | 0 => valueOver fun s => .error (.ahead .tooDeep s)
  | depth + 1 => valueOver (valueWithin depth)

/-- A value.  It has no more levels than there are bytes. -/
def value (s : Bytes) : Except Fault Bytes := valueWithin s.length s

end Untagged.Json.Skip
