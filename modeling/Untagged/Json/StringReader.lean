import Untagged.Json.NumberReader
import Untagged.Text.Utf8

/-!
# Reading strings

A string is read as bytes, from behind its opening quote to its closing quote,
with escapes replaced by the bytes they stand for.  Whether those bytes are text
is asked of the whole, once the closing quote has been read.
-/

namespace Untagged.Json.Reader

def hexValue? (b : UInt8) : Option Nat :=
  if 48 ≤ b && b ≤ 57 then some (b.toNat - 48)
  else if 65 ≤ b && b ≤ 70 then some (b.toNat - 55)
  else if 97 ≤ b && b ≤ 102 then some (b.toNat - 87)
  else none

def hexValue4? (a b c d : UInt8) : Option Nat := do
  let a ← hexValue? a
  let b ← hexValue? b
  let c ← hexValue? c
  let d ← hexValue? d
  some (((a * 16 + b) * 16 + c) * 16 + d)

/-- The four hexadecimal digits of an escape. -/
def hexEscape : Bytes → Except Fault (Read Nat)
  | a :: b :: c :: d :: rest =>
    match hexValue4? a b c d with
    | some n => .ok (n, rest)
    | none => .error (.behind .invalidEscape rest)
  | _ => .error (.behind .eofString [])

def isLeadingSurrogate (n : Nat) : Bool := 0xD800 ≤ n && n ≤ 0xDBFF

def isTrailingSurrogate (n : Nat) : Bool := 0xDC00 ≤ n && n ≤ 0xDFFF

def charBytes (n : Nat) : Bytes := String.utf8EncodeChar (Char.ofNat n)

/-- The character that a pair of surrogates stands for. -/
def pairedValue (lead trail : Nat) : Nat :=
  0x10000 + (lead - 0xD800) * 0x400 + (trail - 0xDC00)

/-- The byte `expected`, which a leading surrogate needs behind it. -/
def pairByte (expected : UInt8) : Bytes → Except Fault Bytes
  | [] => .error (.behind .eofString [])
  | b :: rest => if b = expected then .ok rest else .error (.behind .unfinishedPair rest)

/-- The escape behind `\u`: one unit, or a pair of surrogates in two escapes. -/
def unicodeEscape (s : Bytes) : Except Fault (Read Bytes) := do
  let (n, rest) ← hexEscape s
  if isTrailingSurrogate n then .error (.behind .loneSurrogate rest)
  else if isLeadingSurrogate n then
    let rest ← pairByte 92 rest
    let rest ← pairByte 117 rest
    let (m, rest) ← hexEscape rest
    if isTrailingSurrogate m then .ok (charBytes (pairedValue n m), rest)
    else .error (.behind .loneSurrogate rest)
  else .ok (charBytes n, rest)

/-- The byte that the letter of a short escape stands for. -/
def shortEscape? (letter : UInt8) : Option UInt8 :=
  match letter.toNat with
  | 34 => some 34
  | 92 => some 92
  | 47 => some 47
  | 98 => some 8
  | 102 => some 12
  | 110 => some 10
  | 114 => some 13
  | 116 => some 9
  | _ => none

/-- The escape behind a backslash. -/
def escape : Bytes → Except Fault (Read Bytes)
  | [] => .error (.behind .eofString [])
  | letter :: rest =>
    match shortEscape? letter with
    | some b => .ok ([b], rest)
    | none =>
      if letter = 117 then unicodeEscape rest else .error (.behind .invalidEscape rest)

/-- The bytes of a string up to its closing quote.  Every step consumes a byte, so
as many steps as there are bytes are enough. -/
def stringBytesFrom : Nat → Bytes → Except Fault (Read Bytes)
  | _, [] => .error (.behind .eofString [])
  | 0, _ => .error (.behind .eofString [])
  | fuel + 1, b :: rest =>
    if b = 34 then .ok ([], rest)
    else if b = 92 then do
      let (bytes, rest) ← escape rest
      let (more, rest) ← stringBytesFrom fuel rest
      .ok (bytes ++ more, rest)
    else if b < 32 then .error (.behind .controlCharacter rest)
    else do
      let (more, rest) ← stringBytesFrom fuel rest
      .ok (b :: more, rest)

def stringBytes (s : Bytes) : Except Fault (Read Bytes) := stringBytesFrom s.length s

/-- A string behind its opening quote. -/
def string (s : Bytes) : Except Fault (Read String) := do
  let (bytes, rest) ← stringBytes s
  match Utf8.decode? bytes with
  | some text => .ok (text, rest)
  | none =>
    .error ⟨.invalidText, .behind, rest, bytes.length - Utf8.validLength bytes, false⟩

end Untagged.Json.Reader
