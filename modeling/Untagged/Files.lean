import Untagged.Json.Fault
import Untagged.Path
import Untagged.Text.Utf8

/-!
# Files

The commands read and write files through a `FileSystem`.  `Files` is one of them,
as a value: a folder with the items that lie in it at any depth.  A path is walked
component by component, each step from a folder, so what is wrong with a path is
what goes wrong at its first bad step.

What lies outside the folder is not known; nothing is found there.
-/

namespace Untagged

/-- Why a file is not read or not written. -/
inductive FileError where
  | notFound
  | notFolder
  | isFolder
  | nameTooLong
  | nulInName
  | notText
  /-- Anything else that a file system reports. -/
  | other (message : String)
  deriving DecidableEq, Repr

namespace FileError

def message : FileError → String
  | notFound => "No such file or directory (os error 2)"
  | notFolder => "Not a directory (os error 20)"
  | isFolder => "Is a directory (os error 21)"
  | nameTooLong => "File name too long (os error 36)"
  | nulInName => "file name contained an unexpected NUL byte"
  | notText => "stream did not contain valid UTF-8"
  | other message => message

end FileError

/-- What the commands need of files. -/
class FileSystem (m : Type → Type) where
  /-- Whether a path leads to a file or a folder. -/
  isPresent : String → m Bool
  /-- The bytes of a file. -/
  readBytes : String → m (Except FileError Bytes)
  /-- Makes a file, or replaces what is in it. -/
  writeText : String → String → m (Except FileError Unit)

namespace FileSystem

/-- The text that bytes are. -/
def textOf (bytes : Except FileError Bytes) : Except FileError String :=
  bytes.bind fun bs =>
    match Utf8.decode? bs with
    | some text => .ok text
    | none => .error .notText

/-- The text of a file. -/
def readText {m : Type → Type} [Monad m] [FileSystem m] (path : String) :
    m (Except FileError String) := do
  return textOf (← readBytes path)

end FileSystem

/-- What lies at a place of a folder. -/
inductive FileItem where
  | file (content : Bytes)
  | folder
  deriving DecidableEq, Repr

/-- A folder: its items, each with the names that lead to it. -/
structure Files where
  items : List (List String × FileItem)
  deriving DecidableEq, Repr

namespace Files

/-- A folder without items. -/
def empty : Files := ⟨[]⟩

/-- The item at a place; no names at all lead to the folder itself. -/
def item? (fs : Files) : List String → Option FileItem
  | [] => some .folder
  | place => fs.items.lookup place

/-- Puts an item at a place. -/
def put (fs : Files) (place : List String) (item : FileItem) : Files where
  items := fs.items.filter (fun i => i.1 ≠ place) ++ [(place, item)]

/-- Puts a folder at every place above the given one where nothing is. -/
def withParents (fs : Files) (place : List String) : Files :=
  ((List.range place.length).map place.take).foldl
    (fun fs above => if (fs.item? above).isSome then fs else fs.put above .folder) fs

/-- Where a walk along a path has come. -/
inductive Place where
  | within (names : List String)
  | outside
  deriving DecidableEq, Repr

/-- How many bytes a component may have. -/
def maxName : Nat := 255

/-- How many bytes a path may have, and one more. -/
def maxPath : Nat := 4096

/-- Whether a component means a folder that is already reached: the same one or the
one above it. -/
def meansFolder (name : String) : Bool := name = "" || name = "." || name = ".."

/-- One step of a walk, which must start from a folder. -/
def step (fs : Files) (place : Place) (name : String) : Except FileError Place :=
  match place with
  | .outside => if meansFolder name then .ok .outside else .error .notFound
  | .within names =>
    match fs.item? names with
    | none => .error .notFound
    | some (.file _) => .error .notFolder
    | some .folder =>
      if name = "" || name = "." then .ok place
      else if name = ".." then
        .ok (if names.isEmpty then .outside else .within names.dropLast)
      else if name.utf8ByteSize > maxName then .error .nameTooLong
      else if (fs.item? (names ++ [name])).isSome then .ok (.within (names ++ [name]))
      else .error .notFound

/-- Whether a path can be walked at all. -/
def checkPath (path : String) : Except FileError Unit :=
  if path.toList.contains '\x00' then .error .nulInName
  else if path = "" then .error .notFound
  else if path.utf8ByteSize ≥ maxPath then .error .nameTooLong
  else .ok ()

/-- Where a walk starts: a path that starts with a slash starts outside. -/
def start (path : String) : Place :=
  if path.toList.head? = some '/' then .outside else .within []

/-- Walks a path to its end. -/
def walk (fs : Files) (path : String) : Except FileError Place := do
  checkPath path
  (Path.components path).foldlM fs.step (start path)

/-- The bytes of the file that a path leads to. -/
def read (fs : Files) (path : String) : Except FileError Bytes := do
  match ← fs.walk path with
  | .outside => .error .isFolder
  | .within names =>
    match fs.item? names with
    | some (.file content) => .ok content
    | some .folder => .error .isFolder
    | none => .error .notFound

/-- Whether a path leads anywhere. -/
def holds (fs : Files) (path : String) : Bool :=
  match fs.walk path with
  | .ok _ => true
  | .error _ => false

/-- The components of a path up to the last one that is not empty. -/
def named (path : String) : List String :=
  ((Path.components path).reverse.dropWhile (· = "")).reverse

/-- The folder with a file put where a path leads.  Everything but the last component
must be there.  That one must not mean a folder, and no slash may follow it. -/
def write (fs : Files) (path : String) (content : Bytes) : Except FileError Files := do
  checkPath path
  let name := (named path).getLastD ""
  match ← (named path).dropLast.foldlM fs.step (start path) with
  | .outside => if meansFolder name then .error .isFolder else .error .notFound
  | .within names =>
    match fs.item? names with
    | none => .error .notFound
    | some (.file _) => .error .notFolder
    | some .folder =>
      if meansFolder name || named path ≠ Path.components path then .error .isFolder
      else if name.utf8ByteSize > maxName then .error .nameTooLong
      else
        match fs.item? (names ++ [name]) with
        | some .folder => .error .isFolder
        | _ => .ok (fs.put (names ++ [name]) (.file content))

/-- The files that lie in the folder itself. -/
def top (fs : Files) : List (String × Bytes) :=
  fs.items.filterMap fun i =>
    match i with
    | ([name], .file content) => some (name, content)
    | _ => none

/-- The files in the folder itself that are new, or differ from what they were. -/
def changes (before after : Files) : List (String × Bytes) :=
  after.top.filter fun f => before.top.lookup f.1 ≠ some f.2

instance : FileSystem (StateM Files) where
  isPresent path := do return (← get).holds path
  readBytes path := do return (← get).read path
  writeText path text := do
    match (← get).write path (Utf8.encode text) with
    | .ok fs =>
      set fs
      return .ok ()
    | .error e => return .error e

end Files

end Untagged
