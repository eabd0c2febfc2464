import Untagged.Proofs.Run.Disk
import Untagged.Proofs.Union.Declared

/-!
# The document of a run

A disk accepts the document at a path when it is a text, the text is JSON, and the JSON
falls to a candidate of the fruit requests.  Otherwise it refuses the document with one
message.  What a command that examines a document prints, and how it ends, hangs on
nothing else of the disk.
-/

namespace Untagged

open CommandLine (Invocation)

namespace Disk

variable {disk : Disk} {path message : String} {k : Nat} {a : FruitVariant}

/-- The file at a path is that text. -/
def Holds (disk : Disk) (path text : String) : Prop :=
  ∃ bytes, disk.read path = .ok bytes ∧ Utf8.decode? bytes = some text

/-- The document at a path falls to the candidate at place `k`, which makes `a` of it. -/
def Accepts (disk : Disk) (path : String) (k : Nat) (a : FruitVariant) : Prop :=
  ∃ text v, disk.Holds path text ∧ Json.ofText text = .ok v ∧ v.kind.isContainer = true ∧
    FirstAccepts fruitReq.candidates v k a

/-- The document at a path is refused, with the message of what went wrong. -/
inductive Refuses (disk : Disk) (path : String) : String → Prop where
  | unread {e : FileError} (h : disk.read path = .error e) :
    Refuses disk path ("Failed to read " ++ path ++ ": " ++ e.message)
  | notText {bytes : Bytes} (h : disk.read path = .ok bytes) (hn : Utf8.decode? bytes = none) :
    Refuses disk path ("Failed to read " ++ path ++ ": " ++ FileError.notText.message)
  | undecoded {text : String} {e : DecodeError} (h : disk.Holds path text)
    (he : (fruitReq.decodeText text).outcome = .error e) :
    Refuses disk path ("Failed to decode " ++ path ++ " as " ++ fruitReq.name ++ ": " ++ e.message)

/-- What reading and decoding the document at a path comes to. -/
def document (disk : Disk) (path : String) : Except LoadError (OneOf FruitVariant) :=
  (fruitReq.decodeLoaded path
    ((FileSystem.textOf (disk.read path)).mapError (.unread path))).outcome

theorem document_of_holds {text : String} (h : disk.Holds path text) :
    disk.document path =
      (fruitReq.decodeText text).outcome.mapError (.undecoded path fruitReq.name) := by
  obtain ⟨bytes, hread, htext⟩ := h
  have hloaded : FileSystem.textOf (disk.read path) = .ok text := by
    simp only [hread, FileSystem.textOf, Except.bind, htext]
  rw [document, hloaded]
  rfl

theorem Accepts.document_eq (h : disk.Accepts path k a) :
    disk.document path = .ok (.holding a) := by
  obtain ⟨text, v, hholds, hv, hcontainer, hfirst⟩ := h
  rw [document_of_holds hholds, Union.decodeText, hv]
  show ((fruitReq.decode v).outcome).mapError _ = _
  rw [Union.decode_of_firstAccepts hcontainer hfirst]
  rfl

theorem Refuses.document_eq (h : disk.Refuses path message) :
    ∃ e, disk.document path = .error e ∧ e.message = message := by
  cases h with
  | @unread e h =>
    refine ⟨.unread path e, ?_, rfl⟩
    rw [document, h]
    rfl
  | @notText bytes h hn =>
    refine ⟨.unread path .notText, ?_, rfl⟩
    have hloaded : FileSystem.textOf (disk.read path) = .error .notText := by
      simp only [h, FileSystem.textOf, Except.bind, hn]
    rw [document, hloaded]
    rfl
  | @undecoded text e h he =>
    refine ⟨.undecoded path fruitReq.name e, ?_, rfl⟩
    rw [document_of_holds h, he]
    rfl

theorem accepts_or_refuses (disk : Disk) (path : String) :
    (∃ k a, disk.Accepts path k a) ∨ ∃ message, disk.Refuses path message := by
  cases hread : disk.read path with
  | error e => exact .inr ⟨_, .unread hread⟩
  | ok bytes =>
    cases htext : Utf8.decode? bytes with
    | none => exact .inr ⟨_, .notText hread htext⟩
    | some text =>
      have hholds : disk.Holds path text := ⟨bytes, hread, htext⟩
      cases hx : (fruitReq.decodeText text).outcome with
      | error e => exact .inr ⟨_, .undecoded hholds hx⟩
      | ok x =>
        rw [Union.decodeText] at hx
        cases hv : Json.ofText text with
        | error e =>
          rw [hv] at hx
          cases hx
        | ok v =>
          rw [hv] at hx
          obtain ⟨hcontainer, k, a, hfirst, -⟩ := Union.decode_eq_ok_iff.mp hx
          exact .inl ⟨k, a, text, v, hholds, hv, hcontainer, hfirst⟩

/-- What is accepted is not refused. -/
theorem Accepts.not_refuses (h : disk.Accepts path k a) :
    ¬ ∃ message, disk.Refuses path message := by
  intro hrefuses
  obtain ⟨message, hmessage⟩ := hrefuses
  obtain ⟨e, he, -⟩ := hmessage.document_eq
  rw [h.document_eq] at he
  cases he

/-- The configuration at a path is there and is not loaded. -/
def Misconfigured (disk : Disk) (path : String) : Prop :=
  disk.isPresent path = true ∧
    ∃ e, Config.ofRead path (FileSystem.textOf (disk.read path)) = .error e

theorem config_eq_error_iff : (∃ e, disk.config path = .error e) ↔ disk.Misconfigured path := by
  rw [config, Misconfigured]
  cases disk.isPresent path with
  | true => simp
  | false => simp

/-- With no file but another one there is no configuration. -/
theorem withFile_not_misconfigured {other : String} (h : other ≠ path) (content : Bytes) :
    ¬ (withFile path content).Misconfigured other := by
  intro hm
  have hpresent : (other == path) = true := hm.1
  exact h (beq_iff_eq.mp hpresent)

/-- Loads the document at a path for a command. -/
def load (disk : Disk) (path : String) (pretty : Bool) : Attempt LoadError LoadedValue :=
  (Command.loadInput path .fruitReq pretty : ReaderM Disk (Attempt LoadError LoadedValue)) disk

theorem outcome_load (disk : Disk) (path : String) (pretty : Bool) :
    (disk.load path pretty).outcome =
      (disk.document path).map (fruitReq.loadedValue pretty) := by
  show (Attempt.andThen (Attempt.map _ (fruitReq.decodeLoaded path
    ((FileSystem.textOf (disk.read path)).mapError (.unread path)))) _).outcome = _
  rw [Attempt.outcome_andThen, Attempt.outcome_map, document]
  cases (fruitReq.decodeLoaded path
    ((FileSystem.textOf (disk.read path)).mapError (.unread path))).outcome with
  | ok x => rfl
  | error e => rfl

/-- No fruit has a finding. -/
theorem findings_load {d : LoadedValue} {pretty : Bool}
    (h : (disk.load path pretty).outcome = .ok d) : d.findings = [] := by
  rw [outcome_load] at h
  cases hx : disk.document path with
  | error e =>
    rw [hx] at h
    cases h
  | ok x =>
    rw [hx] at h
    cases h
    cases x with
    | empty => rfl
    | holding a => rfl

theorem perform_decode (disk : Disk) (path : String) (union : UnionChoice) (json : Bool)
    (config : Config) :
    disk.perform (.decode path union json) config =
      Command.decodeResult path .fruitReq json config.output.pretty
        (disk.load path config.output.pretty) := by
  cases union
  rfl

theorem perform_validate (disk : Disk) (path : String) (union : UnionChoice) (json : Bool)
    (config : Config) :
    disk.perform (.validate path union json) config =
      Command.validateResult path .fruitReq json config.output.pretty
        (disk.load path config.output.pretty) := by
  cases union
  rfl

end Disk

/-! ## Commands that examine a document -/

namespace Command

/-- The command decodes or validates the document at a path. -/
inductive Examines (path : String) (json : Bool) : Command → Prop where
  | decode (union : UnionChoice) : Examines path json (.decode path union json)
  | validate (union : UnionChoice) : Examines path json (.validate path union json)

variable {disk : Disk} {command : Command} {path : String} {json : Bool}

/-- Without findings validation ends as decoding does, tells the same, and reports the
same to programs. -/
theorem validateResult_of_no_findings {attempt : Attempt LoadError LoadedValue}
    (h : ∀ d, attempt.outcome = .ok d → d.findings = []) (path : String) (union : UnionChoice)
    (json pretty : Bool) :
    (validateResult path union json pretty attempt).verdict =
        (decodeResult path union json pretty attempt).verdict ∧
      (validateResult path union json pretty attempt).log =
        (decodeResult path union json pretty attempt).log ∧
      (validateResult path union true pretty attempt).stdout =
        (decodeResult path union true pretty attempt).stdout := by
  cases houtcome : attempt.outcome with
  | ok d =>
    have hnone := h d houtcome
    simp only [validateResult, decodeResult, houtcome, hnone, List.isEmpty_nil, if_true,
      List.map_nil, List.append_nil, and_self]
  | error e => simp only [validateResult, decodeResult, houtcome, and_self]

/-- Either command accepts exactly the documents that decode. -/
theorem Examines.verdict_eq (h : Examines path json command) (disk : Disk) (config : Config) :
    (disk.perform command config).verdict =
      match disk.document path with
      | .ok _ => .ok .accepted
      | .error _ => .ok .refused := by
  have hdecoded : (decodeResult path .fruitReq json config.output.pretty
      (disk.load path config.output.pretty)).verdict =
        match disk.document path with
        | .ok _ => .ok .accepted
        | .error _ => .ok .refused := by
    rw [decodeResult, Disk.outcome_load]
    cases disk.document path with
    | ok x => rfl
    | error e => rfl
  cases h with
  | decode union => rw [Disk.perform_decode, hdecoded]
  | validate union =>
    rw [Disk.perform_validate,
      (validateResult_of_no_findings (fun d => Disk.findings_load) _ _ _ _).1, hdecoded]

/-- What either command prints for programs. -/
theorem Examines.stdout_json (h : Examines path true command) (disk : Disk) (config : Config) :
    (disk.perform command config).stdout =
      match disk.document path with
      | .ok x => valueReport path .fruitReq config.output.pretty
          (fruitReq.loadedValue config.output.pretty x) []
      | .error e => errorReport path .fruitReq config.output.pretty e := by
  have hdecoded : (decodeResult path .fruitReq true config.output.pretty
      (disk.load path config.output.pretty)).stdout =
        match disk.document path with
        | .ok x => valueReport path .fruitReq config.output.pretty
            (fruitReq.loadedValue config.output.pretty x) []
        | .error e => errorReport path .fruitReq config.output.pretty e := by
    rw [decodeResult, Disk.outcome_load]
    cases disk.document path with
    | ok x => rfl
    | error e => rfl
  cases h with
  | decode union => rw [Disk.perform_decode, hdecoded]
  | validate union =>
    rw [Disk.perform_validate,
      (validateResult_of_no_findings (fun d => Disk.findings_load) _ _ true _).2.2, hdecoded]

/-- What is refused is not printed where people look for results. -/
theorem Examines.stdout_of_error (h : Examines path false command) {e : LoadError}
    (he : disk.document path = .error e) (config : Config) :
    (disk.perform command config).stdout = "" := by
  have houtcome := disk.outcome_load path config.output.pretty
  rw [he] at houtcome
  cases h with
  | decode union =>
    rw [Disk.perform_decode, decodeResult, houtcome]
    rfl
  | validate union =>
    rw [Disk.perform_validate, validateResult, houtcome]
    rfl

end Command

end Untagged
