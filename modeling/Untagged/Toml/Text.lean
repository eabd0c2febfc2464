import Untagged.Toml.Basic

/-!
# TOML strings

A string is written in one of four ways: between double quotes, with escapes;
between single quotes, as it is; and both with three quotes, over several lines.
A string over several lines drops a line break right behind its opening quotes,
keeps the others, and may end with two quotes of its own before the closing ones.
A backslash at the end of a line drops the white space up to the next character.
-/

namespace Untagged.Toml

abbrev Chars := List Char

/-- Whether a character is white space within a line. -/
def isBlank (c : Char) : Bool := c = ' ' || c = '\t'

/-- Whether a character may stand for itself: any but the controls, of which only the
tab may. -/
def isPlain (c : Char) : Bool := c = '\t' || (32 ≤ c.toNat && c.toNat ≠ 127)

/-- A line break at the front. -/
def lineBreak? : Chars → Option (Chars × Chars)
  | '\n' :: rest => some (['\n'], rest)
  | '\x0d' :: '\n' :: rest => some (['\x0d', '\n'], rest)
  | _ => none

/-- The value of a hexadecimal digit. -/
def hexDigit? (c : Char) : Option Nat :=
  if '0' ≤ c && c ≤ '9' then some (c.toNat - 48)
  else if 'A' ≤ c && c ≤ 'F' then some (c.toNat - 55)
  else if 'a' ≤ c && c ≤ 'f' then some (c.toNat - 87)
  else none

/-- Appends exactly `n` hexadecimal digits to a value. -/
def hexValue? (value : Nat) : Nat → Chars → Option (Nat × Chars)
  | 0, cs => some (value, cs)
  | _ + 1, [] => none
  | n + 1, c :: cs => do hexValue? (16 * value + (← hexDigit? c)) n cs

/-- The character with the given number. -/
def charOf? (n : Nat) : Option Char := if n.isValidChar then some (Char.ofNat n) else none

/-- The character that the letter of a short escape stands for. -/
def shortEscape? : Char → Option Char
  | 'b' => some '\x08'
  | 't' => some '\t'
  | 'n' => some '\n'
  | 'f' => some '\x0c'
  | 'r' => some '\x0d'
  | 'e' => some '\x1b'
  | '"' => some '"'
  | '\\' => some '\\'
  | _ => none

/-- How many digits follow the letter of an escape by number. -/
def escapeDigits? : Char → Option Nat
  | 'x' => some 2
  | 'u' => some 4
  | 'U' => some 8
  | _ => none

/-- The escape behind a backslash. -/
def escape? : Chars → Option (Char × Chars)
  | [] => none
  | c :: cs =>
    match shortEscape? c with
    | some d => some (d, cs)
    | none => do
      let (n, rest) ← hexValue? 0 (← escapeDigits? c) cs
      some (← charOf? n, rest)

/-- Puts text in front of what was read. -/
def behindText (text : Chars) (read : Option (Chars × Chars)) : Option (Chars × Chars) :=
  read.map fun (more, rest) => (text ++ more, rest)

/-- A string between double quotes, behind the opening one. -/
def basicFrom? : Nat → Chars → Option (Chars × Chars)
  | 0, _ => none
  | _, [] => none
  | fuel + 1, c :: cs =>
    if c = '"' then some ([], cs)
    else if c = '\\' then do
      let (d, rest) ← escape? cs
      behindText [d] (basicFrom? fuel rest)
    else if isPlain c then behindText [c] (basicFrom? fuel cs)
    else none

/-- A string between single quotes, behind the opening one. -/
def literal? : Chars → Option (Chars × Chars)
  | [] => none
  | c :: cs =>
    if c = '\'' then some ([], cs)
    else if isPlain c then behindText [c] (literal? cs)
    else none

/-- The end of a string over several lines: three quotes, before which up to two more
belong to the string. -/
def closing? (quote : Char) (s : Chars) : Option (Chars × Chars) :=
  let quotes := (s.takeWhile (· = quote)).length
  if quotes < 3 then none
  else
    let own := min (quotes - 3) 2
    some (List.replicate own quote, s.drop (own + 3))

/-- Drops white space and line breaks. -/
def skipSpace : Chars → Chars
  | '\x0d' :: '\n' :: cs => skipSpace cs
  | c :: cs => if isBlank c || c = '\n' then skipSpace cs else c :: cs
  | [] => []

/-- What follows a backslash that ends a line. -/
def joinedLine? (s : Chars) : Option Chars :=
  (lineBreak? (s.dropWhile isBlank)).map fun (_, rest) => skipSpace rest

/-- A string over several lines, behind its opening quotes; only one between double
quotes has escapes. -/
def linesFrom? (quote : Char) : Nat → Chars → Option (Chars × Chars)
  | 0, _ => none
  | fuel + 1, s =>
    match closing? quote s with
    | some (own, rest) => some (own, rest)
    | none =>
      match lineBreak? s with
      | some (line, rest) => behindText line (linesFrom? quote fuel rest)
      | none =>
        match s with
        | [] => none
        | c :: cs =>
          if c = '\\' && quote = '"' then
            match joinedLine? cs with
            | some rest => linesFrom? quote fuel rest
            | none => do
              let (d, rest) ← escape? cs
              behindText [d] (linesFrom? quote fuel rest)
          else if isPlain c then behindText [c] (linesFrom? quote fuel cs)
          else none

/-- Drops a line break right behind the opening quotes. -/
def afterOpening (s : Chars) : Chars :=
  match lineBreak? s with
  | some (_, rest) => rest
  | none => s

/-- A string within one line. -/
def lineString? : Chars → Option (String × Chars)
  | '"' :: cs => (basicFrom? cs.length cs).map fun (s, rest) => (String.ofList s, rest)
  | '\'' :: cs => (literal? cs).map fun (s, rest) => (String.ofList s, rest)
  | _ => none

/-- A string. -/
def string? : Chars → Option (String × Chars)
  | '"' :: '"' :: '"' :: cs =>
    (linesFrom? '"' (cs.length + 1) (afterOpening cs)).map fun (s, rest) =>
      (String.ofList s, rest)
  | '\'' :: '\'' :: '\'' :: cs =>
    (linesFrom? '\'' (cs.length + 1) (afterOpening cs)).map fun (s, rest) =>
      (String.ofList s, rest)
  | cs => lineString? cs

end Untagged.Toml
