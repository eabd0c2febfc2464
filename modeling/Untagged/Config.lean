/-!
# Configuration

What a user can set: how JSON is printed, and which events are logged.  Everything
has a default, so an empty configuration is complete.
-/

namespace Untagged

/-- How results are printed. -/
structure OutputConfig where
  pretty : Bool := true
  deriving DecidableEq, Repr

/-- What is logged. -/
structure LoggingConfig where
  filter : String := "info"
  deriving DecidableEq, Repr

/-- A configuration. -/
structure Config where
  output : OutputConfig := {}
  logging : LoggingConfig := {}
  deriving DecidableEq, Repr

namespace Config

/-- The configuration that sets nothing. -/
def default : Config := {}

/-- The file that is looked for where no other is named. -/
def defaultPath : String := "oneof.toml"

end Config

end Untagged
