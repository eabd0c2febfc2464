import Untagged.Run

/-!
# The program

The files of the machine as a `FileSystem`, and the run over them.
-/

namespace Untagged

/-- What a failed operation on a file reports. -/
def FileError.ofReport (e : IO.Error) : FileError :=
  match e with
  | .noFileOrDirectory _ _ _ => .notFound
  | .inappropriateType _ 20 _ => .notFolder
  | .inappropriateType _ 21 _ => .isFolder
  | e => .other (toString e)

/-- Does something with a file whose path can be walked. -/
def withPath {α : Type} (path : String) (act : IO α) : IO (Except FileError α) := do
  match Files.checkPath path with
  | .error e => return .error e
  | .ok () =>
    try
      return .ok (← act)
    catch e => return .error (.ofReport e)

instance : FileSystem IO where
  isPresent path := do
    match ← withPath path (IO.FS.Handle.mk path .read) with
    | .ok _ | .error (.other _) => return true
    | .error _ => return false
  readBytes path := do
    return (← withPath path (IO.FS.readBinFile path)).map fun bytes => bytes.data.toList
  writeText path text := withPath path (IO.FS.writeFile path text)

end Untagged

open Untagged in
/-- The program. -/
def main (arguments : List String) : IO UInt32 := do
  let ending ← run arguments (← IO.getEnv "RUST_LOG")
  (← IO.getStdout).putStr ending.stdout
  (← IO.getStderr).putStr ending.stderr
  return UInt32.ofNat ending.code
