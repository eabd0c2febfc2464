import Untagged.Text.Printable

/-!
# Quoted text

Messages and log lines show a text between double quotes, with quotes and
backslashes escaped, the common controls by their letters and every other
character of `isSpelledOut` by its number.  In a quoted path an apostrophe is
escaped as well.
-/

namespace Untagged.Text

/-- A character by its number, in lower-case hexadecimal digits. -/
def spelledNumber (c : Char) : String :=
  "\\u\x7b" ++ String.ofList (Nat.toDigits 16 c.toNat) ++ "\x7d"

/-- How a character stands in quoted text. -/
def quotedChar (c : Char) : String :=
  if c = '\x00' then "\\0"
  else if c = '\t' then "\\t"
  else if c = '\x0d' then "\\r"
  else if c = '\n' then "\\n"
  else if c = '"' then "\\\""
  else if c = '\\' then "\\\\"
  else if c.toNat < 32 || c.toNat = 127 then spelledNumber c
  else if c.toNat < 127 then c.toString
  else if isSpelledOut c then spelledNumber c
  else c.toString

/-- How a character stands in a quoted path. -/
def quotedPathChar (c : Char) : String :=
  if c = '\'' then "\\'" else quotedChar c

def quoted (s : String) : String :=
  "\"" ++ String.join (s.toList.map quotedChar) ++ "\""

def quotedPath (s : String) : String :=
  "\"" ++ String.join (s.toList.map quotedPathChar) ++ "\""

end Untagged.Text
