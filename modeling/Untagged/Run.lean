import Untagged.CommandLine.Invocation
import Untagged.Config.Load
import Untagged.LogFilter

/-!
# Running the program

A run reads its arguments, then its configuration, and then carries out the command.
What goes wrong first ends it.  The exit code is 0 for an accepted document, 1 for a
refused one and for a file that cannot be written, and 2 for bad arguments or a bad
configuration.
-/

namespace Untagged

open CommandLine (Stop Topic Invocation)

/-- How a run ends. -/
inductive Ending where
  | stopped (s : Stop)
  | misconfigured (e : ConfigError)
  /-- The command was carried out; the filter chooses the events that are shown. -/
  | finished (filter : LogFilter) (r : CommandResult)

namespace Ending

def code : Ending → Nat
  | stopped (.help _) | stopped .version => 0
  | stopped .nothingAsked | stopped (.misused _) => 2
  | misconfigured _ => 2
  | finished _ r =>
    match r.verdict with
    | .ok .accepted => 0
    | .ok .refused | .error _ => 1

def stdout : Ending → String
  | stopped (.help topic) => topic.help
  | stopped .version => CommandLine.versionText ++ "\n"
  | stopped .nothingAsked | stopped (.misused _) => ""
  | misconfigured _ => ""
  | finished _ r => r.stdout

def stderr : Ending → String
  | stopped (.help _) | stopped .version => ""
  | stopped .nothingAsked => Topic.program.help
  | stopped (.misused e) => "error: " ++ e.message ++ "\n\nFor more information, try '--help'.\n"
  | misconfigured e => e.message ++ "\n"
  | finished filter r =>
    filter.lines r.log ++ r.stderr
      ++ match r.verdict with
        | .ok _ => ""
        | .error e => "Error: oneof::write\n\n  " ++ e.message ++ "\n"

end Ending

/-- Runs the program.  `environment` is the filter that the environment sets. -/
def run {m : Type → Type} [Monad m] [FileSystem m] (arguments : List String)
    (environment : Option String) : m Ending := do
  match Invocation.ofArguments arguments with
  | .error s => return .stopped s
  | .ok i =>
    match (← Config.loadIfPresent i.config).outcome with
    | .error e => return .misconfigured e
    | .ok config =>
      return .finished (.choose environment config.logging.filter) (← i.command.perform config)

end Untagged
