import Untagged.Toml.Basic

/-!
# Building tables

A document is a sequence of statements: headers, which say where the following
members go, and members.  Nothing may be given twice.  A name before a dot leads
into a table that such a key made, or makes one; a header passes through any table
that is not inline, and through the last table of an array of tables.

The functions here return nothing where a statement does not agree with those
before it.
-/

namespace Untagged.Toml

/-- The members of a table. -/
abbrev Members := List (String × Toml)

/-- Puts a value in the place of the member of that name, or behind the others. -/
def setMember (name : String) (value : Toml) : Members → Members
  | [] => [(name, value)]
  | (n, v) :: ms => if n = name then (n, value) :: ms else (n, v) :: setMember name value ms

/-- Changes the last table of an array of tables. -/
def inLastTable (change : Members → Option Members) (items : List Toml) : Option (List Toml) :=
  match items.getLast? with
  | some (.table origin ms) => do some (items.dropLast ++ [.table origin (← change ms)])
  | _ => none

/-- Adds a member whose key may have dots.  The table that gets it must be the one the
key is given in, or one that keys with dots made. -/
def assign (parents : List String) (name : String) (value : Toml) (ms : Members) :
    Option Members :=
  match parents with
  | [] => if (lookup? name ms).isSome then none else some (ms ++ [(name, value)])
  | p :: ps =>
    match lookup? p ms with
    | none => do some (ms ++ [(p, .table .dotted (← assign ps name value []))])
    | some (.table .dotted inner) => do
      some (setMember p (.table .dotted (← assign ps name value inner)) ms)
    | some (.table .passed inner) =>
      if ps.isEmpty then none
      else do some (setMember p (.table .passed (← assign ps name value inner)) ms)
    | some (.array true items) =>
      if ps.isEmpty then none
      else do some (setMember p (.array true (← inLastTable (assign ps name value) items)) ms)
    | _ => none

/-- Changes the table that the names of a header lead to, making the tables on the
way. -/
def atTable (names : List String) (change : Members → Option Members) (ms : Members) :
    Option Members :=
  match names with
  | [] => change ms
  | n :: ns =>
    match lookup? n ms with
    | none => do some (ms ++ [(n, .table .passed (← atTable ns change []))])
    | some (.table .inline _) => none
    | some (.table origin inner) => do
      some (setMember n (.table origin (← atTable ns change inner)) ms)
    | some (.array true items) => do
      some (setMember n (.array true (← inLastTable (atTable ns change) items)) ms)
    | _ => none

/-- Opens the table of a header.  It must be new, or only have been passed through. -/
def openTable (name : String) (ms : Members) : Option Members :=
  match lookup? name ms with
  | none => some (ms ++ [(name, .table .header [])])
  | some (.table .passed inner) => some (setMember name (.table .header inner) ms)
  | _ => none

/-- Adds a table to an array of tables. -/
def growArray (name : String) (ms : Members) : Option Members :=
  match lookup? name ms with
  | none => some (ms ++ [(name, .array true [.table .header []])])
  | some (.array true items) =>
    some (setMember name (.array true (items ++ [.table .header []])) ms)
  | _ => none

/-- A statement of a document. -/
inductive Statement where
  | member (key : Key) (value : Toml)
  | header (key : Key)
  /-- The header of a table in an array of tables. -/
  | item (key : Key)

/-- The members so far, and the names of the last header. -/
structure Progress where
  root : Members
  current : List String

/-- Carries out a statement. -/
def Progress.step (p : Progress) : Statement → Option Progress
  | .member key value => do
    some { p with root := ← atTable p.current (assign key.parents key.name value) p.root }
  | .header key => do
    some ⟨← atTable key.parents (openTable key.name) p.root, key.parents ++ [key.name]⟩
  | .item key => do
    some ⟨← atTable key.parents (growArray key.name) p.root, key.parents ++ [key.name]⟩

/-- The table that a sequence of statements describes. -/
def ofStatements? (statements : List Statement) : Option Toml := do
  let p ← statements.foldlM Progress.step ⟨[], []⟩
  some (.table .header p.root)

/-- The table that members in braces describe. -/
def ofMembers? (members : List (Key × Toml)) : Option Toml := do
  let ms ← members.foldlM (fun ms m => assign m.1.parents m.1.name m.2 ms) []
  some (.table .inline ms)

end Untagged.Toml
