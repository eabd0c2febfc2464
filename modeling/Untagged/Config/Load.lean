import Untagged.Attempt
import Untagged.Config.Json
import Untagged.Config.Toml
import Untagged.Files

/-!
# Loading configurations

The extension of a file's name decides its format: `json` is JSON and everything
else is TOML.  A file that is missing stands for the defaults where that is asked
for, but a file that is there must be a configuration.
-/

namespace Untagged

/-- Why a configuration is not loaded. -/
inductive ConfigError where
  | unread (path : String) (e : FileError)
  /-- The text is no configuration in JSON. -/
  | badJson (path : String) (text : String) (failure : Json.Failure)
  /-- The text is no configuration in TOML. -/
  | badToml (path : String)

namespace ConfigError

def message : ConfigError → String
  | unread path e => "Failed to read config " ++ path ++ ": " ++ e.message
  | badJson path text failure =>
    "Failed to parse config " ++ path ++ ": " ++ failure.message (Utf8.encode text)
  | badToml path => "Failed to parse config " ++ path

end ConfigError

namespace Config

/-- The configuration in a file of that name with that text. -/
def ofFile (path text : String) : Except ConfigError Config :=
  if Path.extension? path = some "json" then
    match ofJsonText text with
    | .ok c => .ok c
    | .error failure => .error (.badJson path text failure)
  else
    match ofTomlText? text with
    | some c => .ok c
    | none => .error (.badToml path)

/-- The configuration of what reading a file returned. -/
def ofRead (path : String) (read : Except FileError String) : Except ConfigError Config :=
  match read with
  | .ok text => ofFile path text
  | .error e => .error (.unread path e)

variable {m : Type → Type} [Monad m] [FileSystem m]

/-- Loads a configuration. -/
def load (path : String) : m (Attempt ConfigError Config) := do
  return .ofExcept (ofRead path (← FileSystem.readText path))

/-- Loads a configuration, or takes the defaults if there is no file. -/
def loadIfPresent (path : String) : m (Attempt ConfigError Config) := do
  if ← FileSystem.isPresent path then load path
  else return (Attempt.succeed default).telling [.noConfig path]

end Config

end Untagged
