import Untagged.Proofs.Config.JsonText
import Untagged.Proofs.Config.TomlText
import Untagged.Proofs.Run.Disk

/-!
# The two formats agree

A file says what a sheet says in the format that its extension calls for
(`Sheet.StandsIn`).  Loading it gives the configuration that the sheet means, in either
format, and fails if the sheet means none (`Sheet.StandsIn.loadConfig`).  So the formats agree
on every sheet (`Config.formats_agree`).
-/

namespace Untagged

namespace Disk

/-- Loads a configuration from a disk. -/
def loadConfig (disk : Disk) (path : String) : Attempt ConfigError Config :=
  (Config.load path : ReaderM Disk (Attempt ConfigError Config)) disk

/-- Loads a configuration from a disk, or takes the defaults if there is no file. -/
def loadConfigIfPresent (disk : Disk) (path : String) : Attempt ConfigError Config :=
  (Config.loadIfPresent path : ReaderM Disk (Attempt ConfigError Config)) disk

variable {disk : Disk} {path : String}

theorem loadConfig_of_read {text : String} (h : disk.read path = .ok (Utf8.encode text)) :
    disk.loadConfig path = .ofExcept (Config.ofFile path text) := by
  show Attempt.ofExcept (Config.ofRead path (FileSystem.textOf (disk.read path))) = _
  rw [h, FileSystem.textOf, Except.bind, Utf8.decode?_encode]
  rfl

/-- A file that is there is loaded, whether or not that succeeds. -/
theorem loadConfigIfPresent_of_isPresent (h : disk.isPresent path = true) :
    disk.loadConfigIfPresent path = disk.loadConfig path := by
  show (if disk.isPresent path then Config.load path else pure _ :
    ReaderM Disk (Attempt ConfigError Config)) disk = _
  rw [if_pos h]
  rfl

end Disk

namespace Sheet

variable {d : Sheet} {disk : Disk} {path : String}

/-- The file at the path says what the sheet says, in the format of its extension. -/
inductive StandsIn (d : Sheet) (disk : Disk) (path : String) : Prop
  | json {text : String} (hread : disk.read path = .ok (Utf8.encode text))
    (hpath : Path.extension? path = some "json") (h : JsonSheet text d)
  | toml {text : String} (hread : disk.read path = .ok (Utf8.encode text))
    (hpath : Path.extension? path ≠ some "json") (h : TomlSheet text d)

theorem StandsIn.loadConfig (hd : d.WellFormed) (h : d.StandsIn disk path) :
    match d.config? with
    | some c => disk.loadConfig path = .succeed c
    | none => ∃ e, disk.loadConfig path = .fail e := by
  cases h with
  | json hread hpath h =>
    have hsheet := Config.ofJsonText_of_sheet hd h
    rw [Disk.loadConfig_of_read hread, Config.ofFile, if_pos hpath]
    cases hconfig : d.config? with
    | some c =>
      rw [hconfig] at hsheet
      simp only at hsheet ⊢
      rw [hsheet]
      rfl
    | none =>
      rw [hconfig] at hsheet
      obtain ⟨e, he⟩ := hsheet
      exact ⟨_, by rw [he]; rfl⟩
  | toml hread hpath h =>
    rw [Disk.loadConfig_of_read hread, Config.ofFile, if_neg hpath, Config.ofTomlText?_of_sheet hd h]
    cases d.config? with
    | some c => rfl
    | none => exact ⟨_, rfl⟩

/-- A sheet either sets the two members, where they are there, or gets one of them wrong. -/
theorem sets_or_mistyped (d : Sheet) : (∃ p f, d.Sets p f) ∨ d.Mistyped := by
  have hpretty : (∃ p : Option Bool, (d.members "output").lookup "pretty" = p.map .boolean) ∨
      d.Mistyped := by
    cases h : (d.members "output").lookup "pretty" with
    | none => exact .inl ⟨none, rfl⟩
    | some v =>
      cases v with
      | boolean b => exact .inl ⟨some b, rfl⟩
      | string s => exact .inr (.inl ⟨_, h, nofun⟩)
      | integer i => exact .inr (.inl ⟨_, h, nofun⟩)
  have hfilter : (∃ f : Option String, (d.members "logging").lookup "filter" = f.map .string) ∨
      d.Mistyped := by
    cases h : (d.members "logging").lookup "filter" with
    | none => exact .inl ⟨none, rfl⟩
    | some v =>
      cases v with
      | string s => exact .inl ⟨some s, rfl⟩
      | boolean b => exact .inr (.inr ⟨_, h, nofun⟩)
      | integer i => exact .inr (.inr ⟨_, h, nofun⟩)
  rcases hpretty with ⟨p, hp⟩ | hmistyped
  · rcases hfilter with ⟨f, hf⟩ | hmistyped
    · exact .inl ⟨p, f, hp, hf⟩
    · exact .inr hmistyped
  · exact .inr hmistyped

end Sheet

/-- What becomes of a sheet in a file of either format. -/
structure Sheet.FormatsAgree (d : Sheet) : Prop where
  /-- The sheet has a text in either format. -/
  json : ∀ pretty, JsonSheet (d.toDatum.text pretty) d
  toml : TomlSheet d.tomlText d
  /-- Either it sets the two members, where they are there, or one of them is of another
  type. -/
  sorted : (∃ p f, d.Sets p f) ∨ d.Mistyped
  /-- A file with any text of the sheet is loaded as what the sheet sets over the defaults. -/
  loads : ∀ (disk : Disk) (path : String) p f, d.Sets p f → d.StandsIn disk path →
    disk.loadConfig path = .succeed ⟨⟨p.getD true⟩, ⟨f.getD "info"⟩⟩
  /-- It is refused where a member is of another type. -/
  fails : ∀ (disk : Disk) (path : String), d.Mistyped → d.StandsIn disk path →
    ∃ e, disk.loadConfig path = .fail e
  /-- A file that is there is never passed over for the defaults. -/
  present : ∀ (disk : Disk) (path : String), disk.isPresent path = true →
    disk.loadConfigIfPresent path = disk.loadConfig path

/-- Every sheet has a text in either format.  Whichever text of it a file holds, in the
format of the file's extension, loading the file gives the two members that the sheet
sets over the defaults, and fails where one of them is of another type.  What else the
sheet says does not matter, and a file that is there is always loaded. -/
theorem Config.formats_agree {d : Sheet} (hd : d.WellFormed) : d.FormatsAgree where
  json := jsonSheet_text d
  toml := tomlSheet_text hd
  sorted := d.sets_or_mistyped
  loads disk path p f hsets hfile := by
    have hload := hfile.loadConfig hd
    rw [Sheet.config?_of_sets hsets] at hload
    exact hload
  fails disk path hmistyped hfile := by
    have hload := hfile.loadConfig hd
    rw [Sheet.config?_of_mistyped hmistyped] at hload
    exact hload
  present _ _ := Disk.loadConfigIfPresent_of_isPresent

/-- Sections in the other order, one of them empty, and members that nobody asks for. -/
def Sheet.quiet : Sheet where
  extras := [("retries", .integer (-3))]
  sections := [("logging", [("color", .boolean true), ("filter", .string "warn")]), ("output", [])]

/-- The number 0 in the place of a truth value. -/
def Sheet.broken : Sheet where
  extras := []
  sections := [("output", [("pretty", .integer 0)])]

theorem Config.quiet_and_broken_agree :
    (∀ pretty, (Disk.withFile "a.json" (Utf8.encode (Sheet.quiet.toDatum.text pretty))).loadConfig
      "a.json" = .succeed ⟨⟨true⟩, ⟨"warn"⟩⟩) ∧
    (Disk.withFile "a.toml" (Utf8.encode Sheet.quiet.tomlText)).loadConfig "a.toml" =
      .succeed ⟨⟨true⟩, ⟨"warn"⟩⟩ ∧
    ∃ e, (Disk.withFile "a" (Utf8.encode Sheet.broken.tomlText)).loadConfigIfPresent "a" =
      .fail e := by
  have hread (path : String) (content : Bytes) : (Disk.withFile path content).read path = .ok content :=
    if_pos rfl
  have hjson : Path.extension? "a.json" = some "json" := by decide +kernel
  have htoml : Path.extension? "a.toml" ≠ some "json" := by decide +kernel
  have hbare : Path.extension? "a" ≠ some "json" := by decide +kernel
  have hquiet : Sheet.quiet.WellFormed := by constructor <;> simp [Sheet.quiet]
  have hbroken : Sheet.broken.WellFormed := by constructor <;> simp [Sheet.broken]
  have hsets : Sheet.quiet.Sets none (some "warn") := ⟨by decide +kernel, by decide +kernel⟩
  have hmistyped : Sheet.broken.Mistyped := .inl ⟨.integer 0, by decide +kernel, nofun⟩
  have hagree := formats_agree hquiet
  have hfails := formats_agree hbroken
  refine ⟨fun pretty => hagree.loads _ _ _ _ hsets (.json (hread _ _) hjson (hagree.json pretty)),
    hagree.loads _ _ _ _ hsets (.toml (hread _ _) htoml hagree.toml), ?_⟩
  rw [hfails.present _ _ (by decide +kernel)]
  exact hfails.fails _ _ hmistyped (.toml (hread _ _) hbare hfails.toml)

end Untagged
