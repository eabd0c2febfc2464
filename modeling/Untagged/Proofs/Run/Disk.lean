import Untagged.Run

/-!
# Runs on a disk

A run reads files and writes one at most, as its last act.  So its ending hangs on the
answers that the file system gives for each path, and these are a `Disk`.  The answers
need not fit together: a file can be present and unreadable.  On the files of a folder
a run ends as it ends on their disk (`run_files`).

What a run finds at two paths decides its ending: the configuration, which may be
absent, and the document, which a disk either accepts as a fruit or refuses with a
message (`accepts_or_refuses`).
-/

namespace Untagged

open CommandLine (Invocation)

namespace Ending

variable {filter filter' : LogFilter} {r r' : CommandResult}

theorem code_of_accepted (h : r.verdict = .ok .accepted) : (finished filter r).code = 0 := by
  rw [code, h]

theorem code_of_refused (h : r.verdict = .ok .refused) : (finished filter r).code = 1 := by
  rw [code, h]

/-- The verdict decides the code. -/
theorem code_congr (h : r.verdict = r'.verdict) :
    (finished filter r).code = (finished filter' r').code := by
  rw [code, code, h]

/-- A run that has carried out its command ends with 0 for an accepted document only. -/
theorem verdict_of_code (h : (finished filter r).code = 0) : r.verdict = .ok .accepted := by
  cases hverdict : r.verdict with
  | ok verdict =>
    cases verdict with
    | accepted => rfl
    | refused =>
      rw [code_of_refused hverdict] at h
      cases h
  | error e =>
    rw [code, hverdict] at h
    cases h

end Ending

/-- What a file system answers for each path. -/
structure Disk where
  isPresent : String → Bool
  read : String → Except FileError Bytes
  write : String → String → Except FileError Unit

namespace Disk

instance : FileSystem (ReaderM Disk) where
  isPresent path := fun disk => disk.isPresent path
  readBytes path := fun disk => disk.read path
  writeText path text := fun disk => disk.write path text

/-- Runs the program on a disk. -/
def run (disk : Disk) (arguments : List String) (environment : Option String) : Ending :=
  (Untagged.run arguments environment : ReaderM Disk Ending) disk

/-- Carries out a command on a disk. -/
def perform (disk : Disk) (command : Command) (config : Config) : CommandResult :=
  (command.perform config : ReaderM Disk CommandResult) disk

/-- The answers that a folder gives. -/
def ofFiles (fs : Files) : Disk where
  isPresent := fs.holds
  read := fs.read
  write path text := (fs.write path (Utf8.encode text)).map fun _ => ()

/-- A disk with one file on it. -/
def withFile (path : String) (content : Bytes) : Disk where
  isPresent p := p == path
  read p := if p = path then .ok content else .error .notFound
  write _ _ := .error .notFound

/-- The configuration that a run finds. -/
def config (disk : Disk) (path : String) : Except ConfigError Config :=
  if disk.isPresent path then Config.ofRead path (FileSystem.textOf (disk.read path))
  else .ok .default

theorem outcome_loadIfPresent (disk : Disk) (path : String) :
    ((Config.loadIfPresent path : ReaderM Disk (Attempt ConfigError Config)) disk).outcome =
      disk.config path := by
  show Attempt.outcome ((if disk.isPresent path then Config.load path else pure _ :
    ReaderM Disk (Attempt ConfigError Config)) disk) = _
  rw [config]
  split
  · rfl
  · rfl

theorem run_eq (disk : Disk) {arguments : List String} {invocation : Invocation}
    (h : Invocation.ofArguments arguments = .ok invocation) (environment : Option String) :
    disk.run arguments environment =
      match disk.config invocation.config with
      | .error e => .misconfigured e
      | .ok config =>
        .finished (.choose environment config.logging.filter)
          (disk.perform invocation.command config) := by
  rw [run, Untagged.run, h, ← outcome_loadIfPresent]
  show (match ((Config.loadIfPresent invocation.config : ReaderM Disk _) disk).outcome with
    | .error e => pure (Ending.misconfigured e)
    | .ok config => _ : ReaderM Disk Ending) disk = _
  cases ((Config.loadIfPresent invocation.config : ReaderM Disk _) disk).outcome with
  | error e => rfl
  | ok config => rfl

/-! ## Files of a folder -/

theorem loadIfPresent_files (fs : Files) (path : String) :
    (Config.loadIfPresent path : StateM Files (Attempt ConfigError Config)).run fs =
      ((Config.loadIfPresent path : ReaderM Disk (Attempt ConfigError Config)) (ofFiles fs),
        fs) := by
  show (if fs.holds path then Config.load path else pure _ :
    StateM Files (Attempt ConfigError Config)).run fs = ((if fs.holds path then Config.load path
      else pure _ : ReaderM Disk (Attempt ConfigError Config)) (ofFiles fs), fs)
  split
  · rfl
  · rfl

theorem writeText_files_of_ok {fs written : Files} {path text : String}
    (h : fs.write path (Utf8.encode text) = .ok written) :
    (FileSystem.writeText path text : StateM Files _).run fs = (.ok (), written) := by
  simp only [FileSystem.writeText, StateT.run_bind, StateT.run_get, pure_bind, h]
  rfl

theorem writeText_files_of_error {fs : Files} {path text : String} {e : FileError}
    (h : fs.write path (Utf8.encode text) = .error e) :
    (FileSystem.writeText path text : StateM Files _).run fs = (.error e, fs) := by
  simp only [FileSystem.writeText, StateT.run_bind, StateT.run_get, pure_bind, h]
  rfl

theorem writeText_ofFiles (fs : Files) (path text : String) :
    (FileSystem.writeText path text : ReaderM Disk _) (ofFiles fs) =
      (fs.write path (Utf8.encode text)).map fun _ => () :=
  rfl

theorem bind_apply {α β : Type} (x : ReaderM Disk α) (f : α → ReaderM Disk β) (disk : Disk) :
    (x >>= f) disk = f (x disk) disk :=
  rfl

theorem perform_files (fs : Files) (command : Command) (config : Config) :
    ((command.perform config : StateM Files CommandResult).run fs).1 =
      (ofFiles fs).perform command config := by
  cases command with
  | decode input union json =>
    cases union
    rfl
  | validate input union json =>
    cases union
    rfl
  | schema union output =>
    cases output with
    | none => rfl
    | some path =>
      rw [perform, Command.perform, Command.perform, StateT.run_bind]
      cases hwrite : fs.write path (Utf8.encode (Command.schemaText union)) with
      | ok written =>
        rw [writeText_files_of_ok hwrite, bind_apply, writeText_ofFiles, hwrite]
        rfl
      | error e =>
        rw [writeText_files_of_error hwrite, bind_apply, writeText_ofFiles, hwrite]
        rfl

theorem run_files (fs : Files) (arguments : List String) (environment : Option String) :
    ((Untagged.run arguments environment : StateM Files Ending).run fs).1 =
      (ofFiles fs).run arguments environment := by
  cases h : Invocation.ofArguments arguments with
  | error s =>
    rw [run, Untagged.run, Untagged.run, h]
    rfl
  | ok invocation =>
    rw [run_eq _ h, Untagged.run, h, ← outcome_loadIfPresent]
    dsimp only
    rw [StateT.run_bind, loadIfPresent_files]
    show (StateT.run (match
        ((Config.loadIfPresent invocation.config : ReaderM Disk _) (ofFiles fs)).outcome with
      | .error e => _
      | .ok config => _ : StateM Files Ending) fs).1 = _
    cases ((Config.loadIfPresent invocation.config : ReaderM Disk _) (ofFiles fs)).outcome with
    | error e => rfl
    | ok config =>
      dsimp only
      rw [← perform_files]
      rfl

end Disk

end Untagged
