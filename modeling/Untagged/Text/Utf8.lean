/-!
# UTF-8

Bytes as text and back.  `decode?` reads a whole list of bytes, `validLength`
tells how far the bytes are text, and `decodeLossy` replaces what is not: each
longest run of bytes that begins a character and does not finish it becomes one
replacement character.
-/

namespace Untagged.Utf8

/-- The bytes of a text. -/
def encode (s : String) : List UInt8 := s.toByteArray.data.toList

/-- The text that the bytes are, if they are one. -/
def decode? (bytes : List UInt8) : Option String := String.fromUTF8? ⟨bytes.toArray⟩

/-- Whether a byte continues a character, within the given bounds. -/
def isBetween (low high b : UInt8) : Bool := low ≤ b && b ≤ high

/-- For the first byte of a character of more than one byte: how many bytes
follow, and the bounds of the first of them.  The bounds keep out overlong forms,
surrogates and numbers beyond the last character. -/
def lead? (b : UInt8) : Option (Nat × UInt8 × UInt8) :=
  if isBetween 0xC2 0xDF b then some (1, 0x80, 0xBF)
  else if b = 0xE0 then some (2, 0xA0, 0xBF)
  else if b = 0xED then some (2, 0x80, 0x9F)
  else if isBetween 0xE1 0xEF b then some (2, 0x80, 0xBF)
  else if b = 0xF0 then some (3, 0x90, 0xBF)
  else if isBetween 0xF1 0xF3 b then some (3, 0x80, 0xBF)
  else if b = 0xF4 then some (3, 0x80, 0x8F)
  else none

/-- How many of the next `n` bytes continue a character, where the first of them
lies within the given bounds. -/
def continued : Nat → UInt8 → UInt8 → List UInt8 → Nat
  | 0, _, _, _ => 0
  | _, _, _, [] => 0
  | n + 1, low, high, b :: bs =>
    if isBetween low high b then 1 + continued n 0x80 0xBF bs else 0

/-- What the bytes start with. -/
inductive Start where
  /-- A character of this many bytes. -/
  | whole (length : Nat)
  /-- This many bytes that begin a character and do not finish it, at least one. -/
  | broken (length : Nat)
  deriving DecidableEq, Repr

/-- What the bytes `b :: bs` start with. -/
def start (b : UInt8) (bs : List UInt8) : Start :=
  if b < 0x80 then .whole 1
  else
    match lead? b with
    | none => .broken 1
    | some (n, low, high) =>
      let k := continued n low high bs
      if k = n then .whole (1 + n) else .broken (1 + k)

/-- How many bytes, in whole characters, lie before the first that is not text. -/
def validLengthFrom : Nat → List UInt8 → Nat
  | 0, _ => 0
  | _, [] => 0
  | fuel + 1, b :: bs =>
    match start b bs with
    | .whole n => n + validLengthFrom fuel ((b :: bs).drop n)
    | .broken _ => 0

def validLength (bytes : List UInt8) : Nat := validLengthFrom bytes.length bytes

/-- The text of the bytes, piece by piece: the bytes of whole characters stay and
broken ones become the three bytes of the replacement character. -/
def repairFrom : Nat → List UInt8 → List UInt8
  | 0, _ => []
  | _, [] => []
  | fuel + 1, b :: bs =>
    match start b bs with
    | .whole n => (b :: bs).take n ++ repairFrom fuel ((b :: bs).drop n)
    | .broken n => [0xEF, 0xBF, 0xBD] ++ repairFrom fuel ((b :: bs).drop n)

/-- The text of the bytes, with a replacement character for what is not text. -/
def decodeLossy (bytes : List UInt8) : String :=
  (decode? (repairFrom bytes.length bytes)).getD ""

end Untagged.Utf8
