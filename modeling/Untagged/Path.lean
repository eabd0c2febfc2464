import Untagged.Text.Split

/-!
# Paths

A path is a text whose components are separated by slashes.  Its file name is the
last component that names something, and the extension is what follows the last
point of a file name, unless that point starts the name.
-/

namespace Untagged.Path

/-- The components of a path, empty ones included. -/
def components (path : String) : List String := Text.split '/' path

/-- The last component that is neither empty nor a single point, unless it leads
upwards. -/
def fileName? (path : String) : Option String :=
  match ((components path).filter fun c => c ≠ "" && c ≠ ".").getLast? with
  | some name => if name = ".." then none else some name
  | none => none

/-- The extension of a file name. -/
def nameExtension? (name : String) : Option String :=
  match (Text.split '.' name).reverse with
  | [] | [_] => none
  | [_, ""] => none
  | last :: _ => some last

/-- The extension of a path. -/
def extension? (path : String) : Option String := (fileName? path).bind nameExtension?

example : extension? "a/oneof.json" = some "json" := by decide +kernel

example : extension? ".json" = none := by decide +kernel

example : extension? "..json/." = some "json" := by decide +kernel

end Untagged.Path
