import Untagged.Toml.Scalar
import Untagged.Toml.Table

/-!
# Reading TOML

The grammar over a list of characters.  `items` and `members` read the inside of
an array and of an inline table for any reader of values, and `value?` ties the
knot: a value at depth `d + 1` may hold values at depth `d`.  A document is read
line by line into statements, which `Toml.ofStatements?` then carries out.

Text that is not TOML has no further description, so the readers return nothing
for it.
-/

namespace Untagged.Toml

/-- Drops white space within a line. -/
def skipBlanks (s : Chars) : Chars := s.dropWhile isBlank

/-- Drops white space, line breaks and comments; `inComment` tells that a comment has
begun. -/
def gap? (inComment : Bool) : Chars → Option Chars
  | [] => some []
  | '\x0d' :: '\n' :: cs => gap? false cs
  | c :: cs =>
    if c = '\n' then gap? false cs
    else if inComment then (if isPlain c then gap? true cs else none)
    else if isBlank c then gap? false cs
    else if c = '#' then gap? true cs
    else some (c :: cs)

/-- What follows a comment, behind its mark. -/
def afterComment? : Chars → Option Chars
  | [] => some []
  | '\x0d' :: '\n' :: cs => some ('\x0d' :: '\n' :: cs)
  | c :: cs => if c = '\n' then some (c :: cs) else if isPlain c then afterComment? cs else none

/-- What follows the end of a line: white space, a comment and a line break, all of
them optional at the end of the text. -/
def lineEnd? (s : Chars) : Option Chars := do
  let s ←
    match skipBlanks s with
    | '#' :: r => afterComment? r
    | r => some r
  match s with
  | [] => some []
  | s => (lineBreak? s).map Prod.snd

/-- Whether a character may stand in a name without quotes. -/
def isNameChar (c : Char) : Bool := c.isAlphanum || c = '_' || c = '-'

/-- One name of a key. -/
def name? (s : Chars) : Option (String × Chars) :=
  match lineString? s with
  | some read => some read
  | none =>
    let (name, rest) := s.span isNameChar
    if name.isEmpty then none else some (String.ofList name, rest)

/-- A key, with its names from the front. -/
def keyFrom? : Nat → Chars → Option (Key × Chars)
  | 0, _ => none
  | fuel + 1, s => do
    let (name, rest) ← name? (skipBlanks s)
    match skipBlanks rest with
    | '.' :: rest => do
      let (key, rest) ← keyFrom? fuel rest
      some (⟨name :: key.parents, key.name⟩, rest)
    | rest => some (⟨[], name⟩, rest)

/-- A key and the white space around it. -/
def key? (s : Chars) : Option (Key × Chars) := keyFrom? (s.length + 1) s

/-- A key and its value. -/
def member? (item : Chars → Option (Toml × Chars)) (s : Chars) :
    Option ((Key × Toml) × Chars) := do
  let (key, rest) ← key? s
  let (value, rest) ← item (skipBlanks (← expect? '=' rest))
  some ((key, value), rest)

/-- What stands between brackets: any number of `part`s with commas between them,
and `closing` behind them or behind a last comma. -/
def parts? {α : Type} (part : Chars → Option (α × Chars)) (closing : Char) :
    Nat → Chars → Option (List α × Chars)
  | 0, _ => none
  | fuel + 1, s => do
    match ← gap? false s with
    | [] => none
    | c :: cs =>
      if c = closing then some ([], cs)
      else do
        let (x, rest) ← part (c :: cs)
        match ← gap? false rest with
        | [] => none
        | c :: cs =>
          if c = ',' then do
            let (xs, rest) ← parts? part closing fuel cs
            some (x :: xs, rest)
          else if c = closing then some ([x], cs)
          else none

/-- A value, where `inner` reads the values it holds; without it no value may hold
any. -/
def valueOver? (inner : Option (Chars → Option (Toml × Chars))) (s : Chars) :
    Option (Toml × Chars) :=
  match s with
  | [] => none
  | c :: cs =>
    if c = '"' || c = '\'' then (string? s).map fun (text, rest) => (.string text, rest)
    else if c = '[' then do
      let (items, rest) ← parts? (← inner) ']' (cs.length + 1) cs
      some (.array false items, rest)
    else if c = '{' then do
      let (members, rest) ← parts? (member? (← inner)) '}' (cs.length + 1) cs
      some (← ofMembers? members, rest)
    else word? s

/-- A value that holds at most `depth` levels of arrays and inline tables. -/
def value? : Nat → Chars → Option (Toml × Chars)
  | 0 => valueOver? none
  | depth + 1 => valueOver? (some (value? depth))

/-- How many levels of arrays and inline tables a value may have. -/
def maxDepth : Nat := 80

/-- A header, behind its first bracket. -/
def header? : Chars → Option (Statement × Chars)
  | '[' :: s => do
    let (key, rest) ← key? s
    some (.item key, ← expect? ']' (← expect? ']' rest))
  | s => do
    let (key, rest) ← key? s
    some (.header key, ← expect? ']' rest)

/-- A statement. -/
def statement? : Chars → Option (Statement × Chars)
  | '[' :: s => header? s
  | s => (member? (value? maxDepth) s).map fun ((key, value), rest) => (.member key value, rest)

/-- The statements of a document. -/
def statementsFrom? : Nat → Chars → Option (List Statement)
  | 0, _ => none
  | fuel + 1, s => do
    match ← gap? false s with
    | [] => some []
    | s => do
      let (statement, rest) ← statement? s
      let statements ← statementsFrom? fuel (← lineEnd? rest)
      some (statement :: statements)

/-- Drops a byte order mark. -/
def skipMark : Chars → Chars
  | '\ufeff' :: s => s
  | s => s

/-- The table of a document. -/
def ofText? (text : String) : Option Toml := do
  let s := skipMark text.toList
  ofStatements? (← statementsFrom? (s.length + 1) s)

end Untagged.Toml
