import Untagged.Proofs.Run.Document
import Untagged.Proofs.Run.Report

/-!
# The outcome of a run

A run that examines a document looks at its configuration first.  One that is there and
is not loaded ends the run, with nothing printed.  After that the exit code hangs on the
document alone, and so does what is printed for programs, but for its layout.  The log
filter changes neither.
-/

namespace Untagged

open CommandLine (Invocation)

namespace Disk

variable {disk : Disk} {arguments : List String} {configPath path message : String}
  {command : Command} {json : Bool} {k : Nat} {a : FruitVariant}

theorem Accepts.names_eq (h : disk.Accepts path k a) : fruitReq.names[k]? = some a.name := by
  obtain ⟨text, v, -, -, -, hfirst⟩ := h
  obtain ⟨c, hc, haccepts⟩ := hfirst.accepts
  have hname := fruitReq_declared.variantName_of_accepts (List.mem_of_getElem? hc) haccepts
  rw [Union.names, List.getElem?_map, hc]
  exact congrArg some hname.symm

/-! ## The ways in which a run ends -/

theorem run_misconfigured (h : Invocation.ofArguments arguments = .ok ⟨configPath, command⟩)
    (hm : disk.Misconfigured configPath) (environment : Option String) :
    (disk.run arguments environment).code = 2 ∧ (disk.run arguments environment).stdout = "" := by
  obtain ⟨e, he⟩ := config_eq_error_iff.mpr hm
  rw [disk.run_eq h, he]
  exact ⟨rfl, rfl⟩

/-- A run whose configuration is loaded carries out its command. -/
theorem run_configured (h : Invocation.ofArguments arguments = .ok ⟨configPath, command⟩)
    (hm : ¬ disk.Misconfigured configPath) (environment : Option String) :
    ∃ filter config,
      disk.run arguments environment = .finished filter (disk.perform command config) := by
  rw [disk.run_eq h]
  dsimp only
  cases hconfig : disk.config configPath with
  | error e => exact absurd (config_eq_error_iff.mp ⟨e, hconfig⟩) hm
  | ok config => exact ⟨_, config, rfl⟩

theorem run_accepted (h : Invocation.ofArguments arguments = .ok ⟨configPath, command⟩)
    (hc : Command.Examines path json command) (hm : ¬ disk.Misconfigured configPath)
    (ha : disk.Accepts path k a) (environment : Option String) :
    (disk.run arguments environment).code = 0 ∧
      (json = true → ∃ text, (disk.run arguments environment).stdout = text ++ "\n" ∧
        Json.ofText text = .ok (.object [("success", .boolean true),
          ("union", .string "FruitReq"), ("input", .string path), ("variant", .string a.name),
          ("value", a.encode.reread)])) := by
  obtain ⟨filter, config, hrun⟩ := run_configured h hm environment
  have hverdict := hc.verdict_eq disk config
  rw [ha.document_eq] at hverdict
  rw [hrun]
  refine ⟨Ending.code_of_accepted hverdict, fun hjson => ?_⟩
  subst hjson
  have hstdout := hc.stdout_json disk config
  rw [ha.document_eq] at hstdout
  exact ⟨_, hstdout, Report.ofText_ofValue _ _ _ a config.output.pretty⟩

theorem run_refused (h : Invocation.ofArguments arguments = .ok ⟨configPath, command⟩)
    (hc : Command.Examines path json command) (hm : ¬ disk.Misconfigured configPath)
    (hr : disk.Refuses path message) (environment : Option String) :
    (disk.run arguments environment).code = 1 ∧
      (json = true → ∃ text, (disk.run arguments environment).stdout = text ++ "\n" ∧
        Json.ofText text = .ok (.object [("success", .boolean false),
          ("union", .string "FruitReq"), ("input", .string path), ("error", .string message)])) ∧
      (json = false → (disk.run arguments environment).stdout = "") := by
  obtain ⟨filter, config, hrun⟩ := run_configured h hm environment
  obtain ⟨e, he, rfl⟩ := hr.document_eq
  have hverdict := hc.verdict_eq disk config
  rw [he] at hverdict
  rw [hrun]
  refine ⟨Ending.code_of_refused hverdict, ?_, ?_⟩
  · intro hjson
    subst hjson
    have hstdout := hc.stdout_json disk config
    rw [he] at hstdout
    exact ⟨_, hstdout, Report.ofText_ofError _ _ _ config.output.pretty⟩
  · intro hjson
    subst hjson
    exact hc.stdout_of_error he config

/-! ## The outcome -/

/-- How a run ends that examines the document at `path`, with the configuration at
`configPath`.  `json` asks for a report. -/
structure EndsAs (disk : Disk) (configPath path : String) (json : Bool) (ending : Ending) :
    Prop where
  /-- A configuration that is there and is not loaded ends the run, with nothing printed. -/
  misconfigured_iff : ending.code = 2 ↔ disk.Misconfigured configPath
  silent : ending.code = 2 → ending.stdout = ""
  /-- Else the document decides. -/
  refused_iff : ¬ disk.Misconfigured configPath →
    (ending.code = 1 ↔ ∃ message, disk.Refuses path message)
  accepted_iff : ¬ disk.Misconfigured configPath →
    (ending.code = 0 ↔ ¬ ∃ message, disk.Refuses path message)
  /-- The report is an object on a line of its own: with the variant and its value for a
  document that is accepted, and with the error for one that is refused. -/
  report : json = true → ending.code ≠ 2 →
    ∃ text members, ending.stdout = text ++ "\n" ∧ Json.ofText text = .ok (.object members) ∧
      (ending.code = 0 → ∃ k name a value,
        disk.Accepts path k a ∧ fruitReq.names[k]? = some name ∧
        Json.ofText (fruitReq.compactText (.holding a)) = .ok value ∧
        members = [("success", .boolean true), ("union", .string "FruitReq"),
          ("input", .string path), ("variant", .string name), ("value", value)]) ∧
      (ending.code ≠ 0 → ∃ message, disk.Refuses path message ∧
        members = [("success", .boolean false), ("union", .string "FruitReq"),
          ("input", .string path), ("error", .string message)])
  /-- Without a report, a failure prints nothing. -/
  plain : json = false → ending.code ≠ 0 → ending.stdout = ""

/-- The configuration and the document decide how a run ends that examines the document,
whatever the log filter is. -/
theorem run_outcome (h : Invocation.ofArguments arguments = .ok ⟨configPath, command⟩)
    (hc : Command.Examines path json command) (disk : Disk) (environment : Option String) :
    disk.EndsAs configPath path json (disk.run arguments environment) := by
  by_cases hm : disk.Misconfigured configPath
  · obtain ⟨hcode, hstdout⟩ := run_misconfigured h hm environment
    exact ⟨iff_of_true hcode hm, fun _ => hstdout, fun hn => absurd hm hn,
      fun hn => absurd hm hn, fun _ hne => absurd hcode hne, fun _ _ => hstdout⟩
  · rcases disk.accepts_or_refuses path with ⟨k, a, ha⟩ | ⟨message, hr⟩
    · obtain ⟨hcode, hjson⟩ := run_accepted h hc hm ha environment
      have hnone := ha.not_refuses
      refine ⟨?_, ?_, ?_, ?_, fun hj _ => ?_, fun _ hne => absurd hcode hne⟩
      · exact iff_of_false (by rw [hcode]; decide) hm
      · exact fun htwo => absurd (hcode.symm.trans htwo) (by decide)
      · exact fun _ => iff_of_false (by rw [hcode]; decide) hnone
      · exact fun _ => iff_of_true hcode hnone
      · obtain ⟨text, hstdout, htext⟩ := hjson hj
        exact ⟨text, _, hstdout, htext, fun _ => ⟨k, a.name, a, _, ha, ha.names_eq,
          ofText_compactText_fruit a, rfl⟩, fun hne => absurd hcode hne⟩
    · obtain ⟨hcode, hjson, hplain⟩ := run_refused h hc hm hr environment
      refine ⟨?_, ?_, ?_, ?_, fun hj _ => ?_, fun hj _ => hplain hj⟩
      · exact iff_of_false (by rw [hcode]; decide) hm
      · exact fun htwo => absurd (hcode.symm.trans htwo) (by decide)
      · exact fun _ => iff_of_true hcode ⟨message, hr⟩
      · exact fun _ => iff_of_false (by rw [hcode]; decide) fun hn => hn ⟨message, hr⟩
      · obtain ⟨text, hstdout, htext⟩ := hjson hj
        exact ⟨text, _, hstdout, htext,
          fun hzero => absurd (hcode.symm.trans hzero) (by decide), fun _ => ⟨message, hr, rfl⟩⟩

/-- An apple in a file that is named on the command line, without any configuration. -/
theorem run_outcome_apple :
    let disk := withFile "a.json" (Utf8.encode "\x7b\"cultivar\":\"Fuji\"\x7d")
    let arguments := ["decode", "--input", "a.json", "--json"]
    (disk.run arguments none).code = 0 ∧
      ∃ text members, (disk.run arguments none).stdout = text ++ "\n" ∧
        Json.ofText text = .ok (.object members) ∧
        members.map Prod.fst = ["success", "union", "input", "variant", "value"] := by
  intro disk arguments
  have harguments : Invocation.ofArguments arguments =
      .ok ⟨"oneof.toml", .decode "a.json" .fruitReq true⟩ := by decide +kernel
  have hm : ¬ disk.Misconfigured "oneof.toml" := withFile_not_misconfigured (by decide) _
  have haccepts : disk.Accepts "a.json" 0 (.apple ⟨"Fuji", none⟩) :=
    ⟨"\x7b\"cultivar\":\"Fuji\"\x7d", .object [("cultivar", .string "Fuji")],
      ⟨_, rfl, Utf8.decode?_encode _⟩, rfl, rfl, .head rfl⟩
  have hends := run_outcome harguments (.decode .fruitReq) disk none
  have hzero := (hends.accepted_iff hm).mpr haccepts.not_refuses
  obtain ⟨text, members, hstdout, htext, hok, -⟩ :=
    hends.report rfl fun h => hm (hends.misconfigured_iff.mp h)
  obtain ⟨k, name, a, value, -, -, -, rfl⟩ := hok hzero
  exact ⟨hzero, text, _, hstdout, htext, rfl⟩

end Disk

end Untagged
