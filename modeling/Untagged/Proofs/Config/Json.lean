import Untagged.Config.Json
import Untagged.Proofs.Config.Sheet
import Untagged.Proofs.Json.Direct
import Untagged.Proofs.Json.Skip
import Untagged.Proofs.Shape.Exact

/-!
# Sheets in JSON

A text is a sheet in JSON when it is an object with the entries of the sheet, in any
order and layout (`JsonSheet`).  It is read straight from the text, and gives the
configuration that the sheet means, or fails if there is none (`ofJsonText_of_sheet`).
-/

namespace Untagged

/-- The scalar that a JSON value is. -/
def Scalar.ofJson? : Json → Option Scalar
  | .boolean b => some (.boolean b)
  | .string s => some (.string s)
  | .number (.integer i) => (Shape.int64? i.val).map .integer
  | _ => none

theorem Scalar.ofJson?_eq_some_iff {v : Json} {c : Scalar} :
    Scalar.ofJson? v = some c ↔ v = c.toJson := by
  constructor
  · intro h
    cases v with
    | boolean b =>
      cases h
      rfl
    | string s =>
      cases h
      rfl
    | number n =>
      cases n with
      | integer i =>
        obtain ⟨j, hj, rfl⟩ := Option.map_eq_some_iff.mp h
        have hi : i = .ofInt64 j := by
          obtain ⟨k, hlower, hupper⟩ := i
          obtain rfl : k = j.toInt := Shape.int64?_eq_some_iff.mp hj
          rfl
        rw [hi]
        rfl
      | float x => cases h
    | _ => cases h
  · intro h
    rw [h]
    cases c with
    | integer i =>
      show (Shape.int64? i.toInt).map _ = _
      rw [Shape.int64?_toInt]
      rfl
    | _ => rfl

theorem Scalar.isPlain_toJson (c : Scalar) : Json.Skip.IsPlain c.toJson := by
  cases c <;> trivial

namespace Json.Reader

/-- Reads a scalar. -/
def scalar (s : Bytes) : Except Fault (Read Scalar) := do
  let (v, rest) ← value 0 s
  match Scalar.ofJson? v with
  | some c => .ok (c, rest)
  | none => .error (.ahead .expectedValue s)

/-- Reads an entry of a sheet. -/
def sheetEntry (s : Bytes) : Except Fault (Read Sheet.Entry) :=
  match skipBlanks s with
  | [] => .error (.ahead .eofValue [])
  | b :: r =>
    if b = 123 then do
      let (ms, rest) ← membership scalar r
      .ok (.members ms, rest)
    else do
      let (v, rest) ← scalar (b :: r)
      .ok (.scalar v, rest)

theorem scalar_eq_ok_iff {s rest : Bytes} {c : Scalar} :
    scalar s = .ok (c, rest) ↔ value 0 s = .ok (c.toJson, rest) := by
  simp only [scalar, bind_eq_ok]
  constructor
  · intro h
    obtain ⟨⟨v, t⟩, hv, h⟩ := h
    simp only at h
    split at h
    · next c' hc =>
      cases h
      rw [hv, Scalar.ofJson?_eq_some_iff.mp hc]
    · cases h
  · intro h
    exact ⟨_, h, by simp only [Scalar.ofJson?_eq_some_iff.mpr rfl]⟩

theorem scalar_passes : ∀ s c rest, scalar s = .ok (c, rest) → Passes s rest :=
  fun _ _ _ h => value_passes (scalar_eq_ok_iff.mp h)

theorem scalar_of_sheetEntry {s rest : Bytes} {c : Scalar}
    (h : sheetEntry s = .ok (.scalar c, rest)) : scalar s = .ok (c, rest) := by
  rw [sheetEntry] at h
  split at h
  · cases h
  · next b r hs =>
    split at h
    · obtain ⟨_, -, h⟩ := bind_eq_ok.mp h
      cases h
    · obtain ⟨⟨c', t⟩, hc, h⟩ := bind_eq_ok.mp h
      cases h
      rw [scalar_eq_ok_iff, ← value_skipBlanks, hs, ← scalar_eq_ok_iff]
      exact hc

theorem members_of_sheetEntry {s rest : Bytes} {ms : List (String × Scalar)}
    (h : sheetEntry s = .ok (.members ms, rest)) :
    ∃ r, skipBlanks s = 123 :: r ∧ membership scalar r = .ok (ms, rest) := by
  rw [sheetEntry] at h
  split at h
  · cases h
  · next b r hs =>
    split at h
    · next hb =>
      obtain ⟨⟨ms', t⟩, hms, h⟩ := bind_eq_ok.mp h
      cases h
      exact ⟨r, by rw [hs, hb], hms⟩
    · obtain ⟨_, -, h⟩ := bind_eq_ok.mp h
      cases h

theorem sheetEntry_passes : ∀ s e rest, sheetEntry s = .ok (e, rest) → Passes s rest := by
  intro s e rest h
  cases e with
  | scalar c => exact scalar_passes _ _ _ (scalar_of_sheetEntry h)
  | members ms =>
    obtain ⟨r, hs, hms⟩ := members_of_sheetEntry h
    exact (passes_of_skipBlanks_eq hs).trans
      ((membership_passes scalar_passes hms).cons (by decide))

end Json.Reader

open Json.Direct (Carries Gives membership_gives steps steps_cons)

/-! ## Sections -/

section

variable {σ τ : Type} {rest : Bytes}

theorem gives_map {o : Option σ} {r : Except Json.Failure (Json.Reader.Read σ)}
    (h : Gives o rest r) (g : σ → τ) :
    Gives (o.map g) rest (r >>= fun p => .ok (g p.1, p.2)) := by
  cases o with
  | some y =>
    obtain rfl : r = .ok (y, rest) := h
    rfl
  | none =>
    obtain ⟨e, rfl⟩ : ∃ e, r = .error e := h
    exact ⟨e, rfl⟩

/-- The only member that counts is the one of this name. -/
def fieldStep (name : String) (set? : Scalar → σ → Option σ) (m : String × Scalar) (x : σ) :
    Option σ :=
  if m.1 = name then set? m.2 x else some x

theorem steps_fieldStep {name : String} {set? : Scalar → σ → Option σ}
    {ms : List (String × Scalar)} (h : (ms.map Prod.fst).Nodup) (x : σ) :
    steps (fieldStep name set?) ms x = Scalar.fold? name set? ms x := by
  induction ms generalizing x with
  | nil => rfl
  | cons m ms ih =>
    obtain ⟨n, v⟩ := m
    rw [List.map_cons, List.nodup_cons] at h
    rw [steps_cons, fieldStep, Scalar.fold?]
    by_cases hn : n = name
    · subst hn
      rw [if_pos rfl, List.lookup_cons_self]
      cases hv : set? v x with
      | none => simp only [hv, Option.bind_eq_bind, Option.bind_none]
      | some y =>
        simp only [hv, Option.bind_eq_bind, Option.bind_some]
        rw [ih h.2, Scalar.fold?, lookup_eq_none h.1]
    · rw [if_neg hn, lookup_cons_of_ne (Ne.symm hn)]
      exact ih h.2 x

/-- A section with a single field, which `set?` sets to a scalar. -/
theorem section_gives {field : String}
    {read : σ → Bytes → Except Json.Failure (Json.Reader.Read σ)} {set? : Scalar → σ → Option σ}
    (hread : ∀ c x s rest, Json.Reader.scalar s = .ok (c, rest) →
      Gives (set? c x) rest (read x s))
    {ms : List (String × Scalar)} (hms : (ms.map Prod.fst).Nodup) {s : Bytes}
    (h : Json.Reader.sheetEntry s = .ok (.members ms, rest)) (name : String) (x : σ) :
    Gives (Scalar.fold? field set? ms x) rest
      (Json.Direct.record name [⟨field, read⟩] x s) := by
  obtain ⟨r, hs, hmembers⟩ := Json.Reader.members_of_sheetEntry h
  have hcarries : ∀ m ∈ ms, ∀ y,
      Carries Json.Reader.scalar [⟨field, read⟩] (fieldStep field set?) m y := by
    intro m _ y
    by_cases hname : m.1 = field
    · refine .sets (f := ⟨field, read⟩) (by simp [hname]) fun s rest hscalar => ?_
      rw [fieldStep, if_pos hname]
      exact hread _ y s rest hscalar
    · refine .passed (by simp [Ne.symm hname]) (if_neg hname) fun s rest hscalar => ?_
      exact Json.Skip.skip_of_value m.2.isPlain_toJson (Json.Reader.scalar_eq_ok_iff.mp hscalar)
  have hgives := membership_gives
    (Json.Reader.entry_length_le_of_passes Json.Reader.scalar_passes) hmembers hms hcarries x
  rw [Json.Direct.record, hs, ← steps_fieldStep hms]
  exact hgives

theorem boolean_gives {c : Scalar} {s : Bytes} (h : Json.Reader.scalar s = .ok (c, rest)) :
    Gives c.boolean? rest (Json.Direct.boolean s) := by
  have hvalue := Json.Reader.scalar_eq_ok_iff.mp h
  cases c with
  | boolean b => exact Json.Direct.boolean_of_value hvalue
  | string t => exact Json.Direct.boolean_of_other hvalue nofun
  | integer i => exact Json.Direct.boolean_of_other hvalue nofun

theorem string_gives {c : Scalar} {s : Bytes} (h : Json.Reader.scalar s = .ok (c, rest)) :
    Gives c.string? rest (Json.Direct.string s) := by
  have hvalue := Json.Reader.scalar_eq_ok_iff.mp h
  cases c with
  | string t => exact Json.Direct.string_of_value hvalue
  | boolean b => exact Json.Direct.string_of_other hvalue nofun
  | integer i => exact Json.Direct.string_of_other hvalue nofun

theorem OutputConfig.gives {ms : List (String × Scalar)} (hms : (ms.map Prod.fst).Nodup)
    {s : Bytes} (h : Json.Reader.sheetEntry s = .ok (.members ms, rest)) :
    Gives (OutputConfig.ofMembers? ms) rest
      (Json.Direct.record "OutputSection" OutputConfig.fields {} s) :=
  section_gives (fun _ _ _ _ hscalar => gives_map (boolean_gives hscalar) _) hms h _ _

theorem LoggingConfig.gives {ms : List (String × Scalar)} (hms : (ms.map Prod.fst).Nodup)
    {s : Bytes} (h : Json.Reader.sheetEntry s = .ok (.members ms, rest)) :
    Gives (LoggingConfig.ofMembers? ms) rest
      (Json.Direct.record "LoggingSection" LoggingConfig.fields {} s) :=
  section_gives (fun _ _ _ _ hscalar => gives_map (string_gives hscalar) _) hms h _ _

end

/-! ## Entries -/

namespace Sheet

/-- What an entry makes of a configuration. -/
def enter? (m : String × Entry) (c : Config) : Option Config :=
  if m.1 = "output" then
    (m.2.section? OutputConfig.ofMembers?).map fun output => { c with output := output }
  else if m.1 = "logging" then
    (m.2.section? LoggingConfig.ofMembers?).map fun logging => { c with logging := logging }
  else some c

theorem enter?_of_ne {m : String × Entry} (h : m.1 ≠ "output" ∧ m.1 ≠ "logging") (c : Config) :
    enter? m c = some c := by
  rw [enter?, if_neg h.1, if_neg h.2]

/-- The sections that the entries make of a configuration, which keeps a section that
is absent. -/
theorem steps_enter? {es : List (String × Entry)} (h : (es.map Prod.fst).Nodup) (c : Config) :
    steps enter? es c = (do
      let output ← (es.lookup "output").elim (some c.output) (·.section? OutputConfig.ofMembers?)
      let logging ← (es.lookup "logging").elim (some c.logging)
        (·.section? LoggingConfig.ofMembers?)
      some ⟨output, logging⟩) := by
  induction es generalizing c with
  | nil => rfl
  | cons m es ih =>
    obtain ⟨name, e⟩ := m
    rw [List.map_cons, List.nodup_cons] at h
    rw [steps_cons]
    by_cases houtput : name = "output"
    · subst houtput
      have hother : (("output", e) :: es).lookup "logging" = es.lookup "logging" :=
        lookup_cons_of_ne (by show "logging" ≠ "output"; decide)
      rw [enter?, if_pos rfl, List.lookup_cons_self, hother]
      cases hsection : e.section? OutputConfig.ofMembers? with
      | none =>
        simp only [Option.elim, hsection]
        rfl
      | some output =>
        show steps enter? es { c with output := output } = _
        rw [ih h.2, lookup_eq_none h.1]
        simp only [Option.elim, hsection]
    by_cases hlogging : name = "logging"
    · subst hlogging
      rw [enter?, if_neg houtput, if_pos rfl, List.lookup_cons_self,
        lookup_cons_of_ne (Ne.symm houtput)]
      cases hsection : e.section? LoggingConfig.ofMembers? with
      | none =>
        show none = _
        cases (es.lookup "output").elim (some c.output) (·.section? OutputConfig.ofMembers?) with
        | none => rfl
        | some output =>
          simp only [Option.elim, hsection]
          rfl
      | some logging =>
        show steps enter? es { c with logging := logging } = _
        rw [ih h.2, lookup_eq_none h.1]
        simp only [Option.elim, hsection]
    · rw [enter?_of_ne ⟨houtput, hlogging⟩, lookup_cons_of_ne (Ne.symm houtput),
        lookup_cons_of_ne (Ne.symm hlogging)]
      exact ih h.2 c

/-- A proper entry is read as what it makes of a configuration. -/
theorem carries_enter? {m : String × Entry} (h : Proper m) (c : Config) :
    Carries Json.Reader.sheetEntry Config.fields enter? m c := by
  cases h with
  | scalar v hname =>
    refine .passed ?_ (enter?_of_ne hname c) fun s rest hentry => ?_
    · simp [Config.fields, Ne.symm hname.1, Ne.symm hname.2]
    · have hscalar := Json.Reader.scalar_of_sheetEntry hentry
      exact Json.Skip.skip_of_value v.isPlain_toJson (Json.Reader.scalar_eq_ok_iff.mp hscalar)
  | members hname hms =>
    rcases hname with rfl | rfl
    · refine .sets rfl fun s rest hentry => ?_
      exact gives_map (OutputConfig.gives hms hentry) _
    · refine .sets rfl fun s rest hentry => ?_
      exact gives_map (LoggingConfig.gives hms hentry) _

/-- The configuration that a sheet means is what its entries, in any order, make of the
defaults. -/
theorem WellFormed.config?_eq_steps {d : Sheet} (h : d.WellFormed) {es : List (String × Entry)}
    (hes : es.Perm d.entries) : d.config? = steps enter? es .default := by
  have hnodup : (es.map Prod.fst).Nodup := (hes.map Prod.fst).nodup_iff.mpr h.nodup_entries
  rw [steps_enter? hnodup, lookup_perm hnodup hes, lookup_perm hnodup hes,
    h.lookup_entries (.inl rfl), h.lookup_entries (.inr rfl), config?, Sheet.members, Sheet.members]
  cases d.sections.lookup "output" <;> cases d.sections.lookup "logging" <;> rfl

end Sheet

/-! ## Texts -/

/-- The text is an object, the members of which are the entries of the sheet in some
order. -/
inductive JsonSheet (text : String) (d : Sheet) : Prop
  | intro {r rest : Bytes} {es : List (String × Sheet.Entry)}
    (hopen : Json.Reader.skipBlanks (Utf8.encode text) = 123 :: r)
    (hentries : Json.Reader.membership Json.Reader.sheetEntry r = .ok (es, rest))
    (hend : Json.Reader.skipBlanks rest = []) (hperm : es.Perm d.entries)

variable {text : String} {d : Sheet}

theorem Config.ofJsonText_of_sheet (hd : d.WellFormed) (h : JsonSheet text d) :
    match d.config? with
    | some c => Config.ofJsonText text = .ok c
    | none => ∃ e, Config.ofJsonText text = .error e := by
  obtain @⟨r, rest, es, hopen, hentries, hend, hperm⟩ := h
  have hnodup : (es.map Prod.fst).Nodup := (hperm.map Prod.fst).nodup_iff.mpr hd.nodup_entries
  have hgives := membership_gives
    (Json.Reader.entry_length_le_of_passes Json.Reader.sheetEntry_passes) hentries hnodup
    (fun m hm c => Sheet.carries_enter? (hd.proper _ (hperm.mem_iff.mp hm)) c) Config.default
  have hround : Config.ofJsonText text =
      (Json.Direct.membership Config.fields .default r >>= fun p =>
        Json.Direct.ofGrammar (Json.Reader.finish p.1 p.2)) := by
    rw [Config.ofJsonText, Json.Direct.document, Json.Direct.record, hopen]
    rfl
  rw [hround, hd.config?_eq_steps hperm]
  cases hsteps : steps Sheet.enter? es Config.default with
  | none =>
    rw [hsteps] at hgives
    obtain ⟨e, he⟩ : ∃ e, Json.Direct.membership Config.fields .default r = .error e := hgives
    exact ⟨e, by rw [he]; rfl⟩
  | some c =>
    rw [hsteps] at hgives
    have hgives : Json.Direct.membership Config.fields .default r = .ok (c, rest) := hgives
    show Json.Direct.membership Config.fields .default r >>= _ = _
    rw [hgives]
    show Json.Direct.ofGrammar (Json.Reader.finish c rest) = _
    rw [Json.Reader.finish_eq_ok_iff.mpr ⟨rfl, hend⟩]
    rfl

end Untagged
