import Untagged.Proofs.Run.Outcome
import Untagged.Proofs.Union.Trace

/-!
# Decoding and validating a document

Two commands examine a document and report on it, each in its own way.  They could differ
only by the findings of a value that was decoded, since validation alone reports these
and refuses a document for them (`Command.verdict_eq_iff`).  A fruit has no findings, so
on every disk the two commands end alike and print the same for programs.
-/

namespace Untagged

open CommandLine (Invocation)

namespace Command

/-- The two commands pass the same verdict exactly when the value that was loaded, if one
was, has no findings. -/
theorem verdict_eq_iff {attempt : Attempt LoadError LoadedValue} {path : String}
    {union : UnionChoice} {json pretty : Bool} :
    (validateResult path union json pretty attempt).verdict =
        (decodeResult path union json pretty attempt).verdict ↔
      ∀ d, attempt.outcome = .ok d → d.findings = [] := by
  constructor
  · intro h d hd
    simp only [validateResult, decodeResult, hd] at h
    cases hfindings : d.findings with
    | nil => rfl
    | cons f fs =>
      rw [hfindings] at h
      cases h
  · intro h
    exact (validateResult_of_no_findings h path union json pretty).1

end Command

/-! ## No findings -/

/-- The attempts with the candidates tell nothing, as a fruit holds no unions. -/
theorem log_fruit_candidate {c : Candidate FruitVariant} (hc : c ∈ fruitReq.candidates)
    (v : Json) : (c.decode v).log = [] := by
  have hvisiting := fruitReq_visiting fun _ => Union.Traceable
  rw [hvisiting.candidates, List.mem_map] at hc
  obtain ⟨A, hA, rfl⟩ := hc
  exact (hvisiting.told hA v).log

/-- Decoding a fruit tells of no finding. -/
theorem found_notMem_decode (v : Json) (path : String) (finding : Finding) :
    .found path finding ∉ (fruitReq.decode v).log := by
  intro hfound
  obtain ⟨failed, htrace⟩ := fruitReq.trace_decode v
  rcases htrace.mem_log hfound with hscan | ⟨c, hc, hlog | ⟨r, hr⟩ | hmatched⟩
  · cases v <;> simp [Union.scanned] at hscan
  · rw [log_fruit_candidate hc] at hlog
    cases hlog
  · cases hr
  · cases hmatched

namespace Disk

variable {disk : Disk} {path : String}

/-- Neither does loading one. -/
theorem found_notMem_load (disk : Disk) (path : String) (pretty : Bool) (subject : String)
    (finding : Finding) : .found subject finding ∉ (disk.load path pretty).log := by
  have hloaded : ∀ read, .found subject finding ∉ (fruitReq.decodeLoaded path read).log := by
    intro read
    cases read with
    | error e => exact List.not_mem_nil
    | ok text =>
      have htext : .found subject finding ∉ (fruitReq.decodeText text).log := by
        rw [Union.decodeText]
        cases Json.ofText text with
        | error e => exact List.not_mem_nil
        | ok v => exact found_notMem_decode v subject finding
      show Event.found subject finding ∉
        .decoding path fruitReq.name :: (fruitReq.decodeText text).log
      simpa using htext
  show .found subject finding ∉ (Attempt.andThen (Attempt.map _ (fruitReq.decodeLoaded path
    ((FileSystem.textOf (disk.read path)).mapError (.unread path)))) _).log
  have hread := hloaded ((FileSystem.textOf (disk.read path)).mapError (.unread path))
  rw [Attempt.andThen]
  split
  · simpa using hread
  · exact hread

/-- With the same configuration the commands pass the same verdict, tell the same and
report the same to programs. -/
theorem perform_agree (disk : Disk) (path : String) (union union' : UnionChoice) (json : Bool)
    (config : Config) :
    (disk.perform (.validate path union' json) config).verdict =
        (disk.perform (.decode path union json) config).verdict ∧
      (disk.perform (.validate path union' json) config).log =
        (disk.load path config.output.pretty).log ∧
      (json = true → (disk.perform (.validate path union' json) config).stdout =
        (disk.perform (.decode path union json) config).stdout) := by
  obtain ⟨hverdict, hlog, hstdout⟩ := Command.validateResult_of_no_findings
    (fun d => disk.findings_load) path .fruitReq json config.output.pretty
  have hdecoded : ∀ attempt, (Command.decodeResult path .fruitReq json config.output.pretty
      attempt).log = attempt.log := by
    intro attempt
    rw [Command.decodeResult]
    split <;> rfl
  rw [perform_decode, perform_validate]
  refine ⟨hverdict, hlog.trans (hdecoded _), fun hjson => ?_⟩
  subst hjson
  exact hstdout

/-- To people validation says that a document that decodes is valid. -/
theorem Accepts.stdout_validate {k : Nat} {a : FruitVariant} (h : disk.Accepts path k a)
    (union : UnionChoice) (config : Config) :
    (disk.perform (.validate path union false) config).stdout =
      path ++ ": valid " ++ fruitReq.display (.holding a) ++ "\n" := by
  rw [perform_validate, Command.validateResult, outcome_load, h.document_eq]
  rfl

/-- A run that validates with success says that the document is valid. -/
theorem stdout_of_accepted {config : Config} {union : UnionChoice}
    (h : (disk.perform (.validate path union false) config).verdict = .ok .accepted) :
    ∃ k a, disk.Accepts path k a ∧
      (disk.perform (.validate path union false) config).stdout =
        path ++ ": valid " ++ fruitReq.display (.holding a) ++ "\n" := by
  rcases disk.accepts_or_refuses path with ⟨k, a, ha⟩ | ⟨message, hr⟩
  · exact ⟨k, a, ha, ha.stdout_validate union config⟩
  · obtain ⟨e, he, -⟩ := hr.document_eq
    rw [(Command.Examines.validate union).verdict_eq, he] at h
    cases h

/-! ## The agreement -/

variable {decodeArguments validateArguments : List String} {configPath : String}
  {union union' : UnionChoice} {json : Bool}

/-- Runs that decode and that validate the same document with the same configuration end
with the same code, whatever the configuration is, and print the same for programs.
Validation reports no finding to anyone: this is what the verdicts could differ by. -/
theorem decode_and_validate_agree
    (hd : Invocation.ofArguments decodeArguments = .ok ⟨configPath, .decode path union json⟩)
    (hv : Invocation.ofArguments validateArguments = .ok ⟨configPath, .validate path union' json⟩)
    (disk : Disk) (environment environment' : Option String) :
    (disk.run validateArguments environment').code = (disk.run decodeArguments environment).code ∧
    (json = true → (disk.run validateArguments environment').stdout =
      (disk.run decodeArguments environment).stdout) ∧
    (∀ filter r, disk.run validateArguments environment' = .finished filter r →
      ∀ subject finding, .found subject finding ∉ r.log) ∧
    (json = false → (disk.run validateArguments environment').code = 0 →
      ∃ k a, disk.Accepts path k a ∧ (disk.run validateArguments environment').stdout =
        path ++ ": valid " ++ fruitReq.display (.holding a) ++ "\n") ∧
    (∀ attempt : Attempt LoadError LoadedValue, ∀ pretty,
      (Command.validateResult path union' json pretty attempt).verdict =
          (Command.decodeResult path union' json pretty attempt).verdict ↔
        ∀ d, attempt.outcome = .ok d → d.findings = []) ∧
    ∀ x, fruitReq.validate x = [] := by
  have hnone : ∀ x, fruitReq.validate x = [] := fun x => by cases x <;> rfl
  rw [disk.run_eq hd, disk.run_eq hv]
  cases disk.config configPath with
  | error e => exact ⟨rfl, fun _ => rfl, nofun, nofun, fun _ _ => Command.verdict_eq_iff, hnone⟩
  | ok config =>
    obtain ⟨hverdict, hlog, hstdout⟩ := disk.perform_agree path union union' json config
    refine ⟨Ending.code_congr hverdict, hstdout, fun filter r hr subject finding => ?_,
      fun hjson hcode => ?_, fun _ _ => Command.verdict_eq_iff, hnone⟩
    · cases hr
      rw [hlog]
      exact disk.found_notMem_load path config.output.pretty subject finding
    · subst hjson
      exact stdout_of_accepted (Ending.verdict_of_code hcode)

/-- A banana that is cut off is refused alike by either command. -/
theorem cut_off_banana_refused_alike :
    let disk := withFile "b.json" (Utf8.encode "\x7b\"lengthCm\":1")
    let decoding := disk.run ["decode", "--input", "b.json", "--json"] none
    let validating := disk.run ["validate", "--json", "--input", "b.json"] none
    decoding.code = 1 ∧ validating.code = 1 ∧ validating.stdout = decoding.stdout := by
  intro disk decoding validating
  have hd : Invocation.ofArguments ["decode", "--input", "b.json", "--json"] =
      .ok ⟨"oneof.toml", .decode "b.json" .fruitReq true⟩ := by decide +kernel
  have hv : Invocation.ofArguments ["validate", "--json", "--input", "b.json"] =
      .ok ⟨"oneof.toml", .validate "b.json" .fruitReq true⟩ := by decide +kernel
  have hm : ¬ disk.Misconfigured "oneof.toml" := withFile_not_misconfigured (by decide) _
  have hrefuses : disk.Refuses "b.json" _ :=
    .undecoded ⟨_, rfl, Utf8.decode?_encode "\x7b\"lengthCm\":1"⟩ rfl
  obtain ⟨hone, -⟩ := run_refused hd (.decode .fruitReq) hm hrefuses none
  obtain ⟨hcode, hstdout, -⟩ := decode_and_validate_agree hd hv disk none none
  exact ⟨hone, hcode.trans hone, hstdout rfl⟩

end Disk

end Untagged
