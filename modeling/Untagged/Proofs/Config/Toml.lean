import Untagged.Config.Toml
import Untagged.Proofs.Config.Sheet
import Untagged.Proofs.Toml.Lines

/-!
# Sheets in TOML

A text is a sheet in TOML when its lines give the members beside the sections, and then
each section behind its header (`TomlSheet`).  Carried out one after the other, these
statements build the table of the sheet (`ofStatements?_statements`), whose
configuration is the one that the sheet means (`Config.ofTomlText?_of_sheet`).
-/

namespace Untagged

open Toml (Members Progress Statement assign atTable lookup? setMember)

/-! ## Statements -/

/-- The statement that gives a member its value. -/
def Scalar.statement (m : String × Scalar) : Statement := .member ⟨[], m.1⟩ m.2.toToml

/-- The members of a table. -/
def Scalar.toMembers (ms : List (String × Scalar)) : Members :=
  ms.map fun m => (m.1, m.2.toToml)

namespace Sheet

def Entry.toToml : Entry → Toml
  | .scalar v => v.toToml
  | .members ms => .table .header (Scalar.toMembers ms)

/-- The statements of a section, its header first. -/
def sectionStatements (s : String × List (String × Scalar)) : List Statement :=
  .header ⟨[], s.1⟩ :: s.2.map Scalar.statement

/-- The statements of a sheet. -/
def statements (d : Sheet) : List Statement :=
  d.extras.map Scalar.statement ++ d.sections.flatMap sectionStatements

/-- The members of the table of a sheet. -/
def root (d : Sheet) : Members := d.entries.map fun m => (m.1, m.2.toToml)

end Sheet

/-- The lines of the text are the statements of the sheet. -/
def TomlSheet (text : String) (d : Sheet) : Prop := Toml.Lines text.toList d.statements

/-! ## Building the table -/

namespace Toml

section

variable {name : String} {v w : Toml} {ms before : Members} {current : List String}

theorem lookup?_eq_lookup : lookup? name ms = ms.lookup name := by
  induction ms with
  | nil => rfl
  | cons m ms ih =>
    obtain ⟨n, v⟩ := m
    rw [lookup?]
    by_cases hn : n = name
    · subst hn
      rw [if_pos rfl, List.lookup_cons_self]
    · rw [if_neg hn, ih, lookup_cons_of_ne (Ne.symm hn)]

theorem lookup?_eq_none (h : name ∉ ms.map Prod.fst) : lookup? name ms = none := by
  rw [lookup?_eq_lookup, lookup_eq_none h]

/-- A table that is the last member is found behind the others. -/
theorem lookup?_last (h : name ∉ before.map Prod.fst) :
    lookup? name (before ++ [(name, v)]) = some v := by
  rw [lookup?_eq_lookup, List.lookup_append, lookup_eq_none h, List.lookup_cons_self]
  rfl

theorem setMember_last (h : name ∉ before.map Prod.fst) :
    setMember name w (before ++ [(name, v)]) = before ++ [(name, w)] := by
  induction before with
  | nil => exact if_pos rfl
  | cons m before ih =>
    obtain ⟨n, u⟩ := m
    rw [List.map_cons, List.mem_cons, not_or] at h
    rw [List.cons_append, setMember, if_neg (Ne.symm h.1), ih h.2, List.cons_append]

theorem assign_new (h : name ∉ ms.map Prod.fst) :
    assign [] name v ms = some (ms ++ [(name, v)]) := by
  rw [assign, lookup?_eq_none h]
  rfl

/-- A member beside the sections. -/
theorem step_member (h : name ∉ ms.map Prod.fst) :
    Progress.step ⟨ms, []⟩ (.member ⟨[], name⟩ v) = some ⟨ms ++ [(name, v)], []⟩ := by
  rw [Progress.step, atTable, assign_new h]
  rfl

/-- The header of a new section. -/
theorem step_header (h : name ∉ ms.map Prod.fst) :
    Progress.step ⟨ms, current⟩ (.header ⟨[], name⟩) =
      some ⟨ms ++ [(name, .table .header [])], [name]⟩ := by
  rw [Progress.step, atTable, openTable, lookup?_eq_none h]
  rfl

/-- A member of the last section. -/
theorem step_member_last {table : String} (htable : table ∉ before.map Prod.fst)
    (h : name ∉ ms.map Prod.fst) :
    Progress.step ⟨before ++ [(table, .table .header ms)], [table]⟩ (.member ⟨[], name⟩ v) =
      some ⟨before ++ [(table, .table .header (ms ++ [(name, v)]))], [table]⟩ := by
  rw [Progress.step, atTable, lookup?_last htable]
  simp only [atTable, assign_new h, Option.bind_eq_bind, Option.bind_some, setMember_last htable]

end

end Toml

namespace Sheet

theorem map_fst_toMembers (ms : List (String × Scalar)) :
    (Scalar.toMembers ms).map Prod.fst = ms.map Prod.fst := by
  rw [Scalar.toMembers, List.map_map]
  rfl

/-- Behind a name that is new, the names that are still to come are new too. -/
theorem nodup_step {α : Type} {names : List String} {m : String × α} {ms : List (String × α)}
    (h : (names ++ (m :: ms).map Prod.fst).Nodup) :
    m.1 ∉ names ∧ (names ++ [m.1] ++ ms.map Prod.fst).Nodup := by
  have hnot : m.1 ∉ names := fun hmem => (List.nodup_append.mp h).2.2 _ hmem _ (.head _) rfl
  refine ⟨hnot, ?_⟩
  rw [List.append_assoc]
  exact h

theorem foldlM_extras (before : Members) {ms : List (String × Scalar)}
    (h : (before.map Prod.fst ++ ms.map Prod.fst).Nodup) :
    (ms.map Scalar.statement).foldlM Progress.step ⟨before, []⟩ =
      some ⟨before ++ Scalar.toMembers ms, []⟩ := by
  induction ms generalizing before with
  | nil =>
    have hnil : Scalar.toMembers [] = [] := rfl
    rw [hnil, List.append_nil]
    rfl
  | cons m ms ih =>
    obtain ⟨hnot, hnodup⟩ := nodup_step h
    rw [List.map_cons, List.foldlM_cons, Scalar.statement, Toml.step_member hnot]
    show (ms.map Scalar.statement).foldlM Progress.step _ = _
    rw [ih _ (by rw [List.map_append]; exact hnodup), List.append_assoc]
    rfl

theorem foldlM_members {before : Members} {name : String} (hname : name ∉ before.map Prod.fst)
    (inner : Members) {ms : List (String × Scalar)} (h : (inner.map Prod.fst ++ ms.map Prod.fst).Nodup) :
    (ms.map Scalar.statement).foldlM Progress.step
        ⟨before ++ [(name, .table .header inner)], [name]⟩ =
      some ⟨before ++ [(name, .table .header (inner ++ Scalar.toMembers ms))], [name]⟩ := by
  induction ms generalizing inner with
  | nil =>
    have hnil : Scalar.toMembers [] = [] := rfl
    rw [hnil, List.append_nil]
    rfl
  | cons m ms ih =>
    obtain ⟨hnot, hnodup⟩ := nodup_step h
    rw [List.map_cons, List.foldlM_cons, Scalar.statement, Toml.step_member_last hname hnot]
    show (ms.map Scalar.statement).foldlM Progress.step _ = _
    rw [ih _ (by rw [List.map_append]; exact hnodup), List.append_assoc]
    rfl

theorem foldlM_sections (before : Members) {ss : List (String × List (String × Scalar))}
    (h : (before.map Prod.fst ++ ss.map Prod.fst).Nodup)
    (hss : ∀ s ∈ ss, (s.2.map Prod.fst).Nodup) (current : List String) :
    ∃ last, (ss.flatMap sectionStatements).foldlM Progress.step ⟨before, current⟩ =
      some ⟨before ++ ss.map fun s => (s.1, (Entry.members s.2).toToml), last⟩ := by
  induction ss generalizing before current with
  | nil =>
    rw [List.map_nil, List.append_nil]
    exact ⟨current, rfl⟩
  | cons s ss ih =>
    obtain ⟨name, ms⟩ := s
    obtain ⟨hnot, hnodup⟩ := nodup_step h
    rw [List.forall_mem_cons] at hss
    have hmembers := foldlM_members hnot [] hss.1
    have hsection : (sectionStatements (name, ms)).foldlM Progress.step ⟨before, current⟩ =
        some ⟨before ++ [(name, (Entry.members ms).toToml)], [name]⟩ := by
      rw [sectionStatements, List.foldlM_cons, Toml.step_header hnot]
      exact hmembers
    obtain ⟨last, hlast⟩ := ih (before ++ [(name, (Entry.members ms).toToml)])
      (by rw [List.map_append]; exact hnodup) hss.2 [name]
    refine ⟨last, ?_⟩
    rw [List.flatMap_cons, List.foldlM_append, hsection]
    show (ss.flatMap sectionStatements).foldlM Progress.step _ = _
    rw [hlast, List.append_assoc]
    rfl

variable {d : Sheet}

theorem ofStatements?_statements (h : d.WellFormed) :
    Toml.ofStatements? d.statements = some (.table .header d.root) := by
  have hnodup := h.nodup_entries
  rw [map_fst_entries] at hnodup
  have hextras := foldlM_extras [] (List.nodup_append.mp hnodup).1
  obtain ⟨last, hsections⟩ := foldlM_sections (Scalar.toMembers d.extras)
    (by rw [map_fst_toMembers]; exact hnodup) h.members []
  have hroot : d.root = Scalar.toMembers d.extras ++
      d.sections.map fun s => (s.1, (Entry.members s.2).toToml) := by
    rw [root, entries, List.map_append, List.map_map, List.map_map]
    rfl
  rw [Toml.ofStatements?, statements, List.foldlM_append, hextras, List.nil_append]
  show ((d.sections.flatMap sectionStatements).foldlM Progress.step _ >>= _) = _
  rw [hsections, ← hroot]
  rfl

end Sheet

/-! ## The configuration of the table -/

namespace Toml

theorem membersHeld_iff {ms : Members} :
    membersHeld ms = true ↔ ∀ m ∈ ms, isHeld m.2 = true := by
  induction ms with
  | nil => simp [membersHeld]
  | cons m ms ih =>
    obtain ⟨name, v⟩ := m
    rw [membersHeld, Bool.and_eq_true, ih, List.forall_mem_cons]

/-- A table can be a section where its other members fit the machine. -/
theorem isSection_table {names : List String} {origin : Origin} {ms : Members}
    (h : ∀ m ∈ ms, m.1 ∉ names → isHeld m.2 = true) :
    (table origin ms).isSection names = true := by
  rw [isSection, membersHeld_iff]
  intro m hm
  rw [List.mem_filter] at hm
  exact h m hm.1 (by simpa using hm.2)

end Toml

theorem Scalar.isHeld_toToml (v : Scalar) : v.toToml.isHeld = true := by
  cases v with
  | boolean b => rfl
  | string s => rfl
  | integer i =>
    have hlower := i.le_toInt
    have hupper := i.toInt_lt
    show Toml.integerIsHeld i.toInt = true
    cases hi : i.toInt with
    | ofNat n =>
      rw [hi] at hupper
      have hn : n < 2 ^ 63 := Int.ofNat_lt.mp hupper
      exact decide_eq_true (Nat.lt_trans hn (by decide))
    | negSucc n =>
      have hn : n < 2 ^ 63 := by omega
      exact decide_eq_true (Nat.lt_trans hn (by decide))

section

variable {ms : List (String × Scalar)}

theorem Scalar.isSection_toMembers (names : List String) :
    (Toml.table .header (Scalar.toMembers ms)).isSection names = true := by
  refine Toml.isSection_table fun m hm _ => ?_
  obtain ⟨m, -, rfl⟩ := List.mem_map.mp hm
  exact m.2.isHeld_toToml

theorem Scalar.lookup?_toMembers (name : String) :
    lookup? name (Scalar.toMembers ms) = (ms.lookup name).map Scalar.toToml := by
  rw [Toml.lookup?_eq_lookup, Scalar.toMembers, lookup_map]

theorem OutputConfig.ofToml?_toMembers :
    OutputConfig.ofToml? (.table .header (Scalar.toMembers ms)) = OutputConfig.ofMembers? ms := by
  rw [OutputConfig.ofToml?, if_pos (Scalar.isSection_toMembers _), Toml.field?,
    Scalar.lookup?_toMembers, OutputConfig.ofMembers?, Scalar.fold?]
  cases ms.lookup "pretty" with
  | none => rfl
  | some v => cases v <;> rfl

theorem LoggingConfig.ofToml?_toMembers :
    LoggingConfig.ofToml? (.table .header (Scalar.toMembers ms)) = LoggingConfig.ofMembers? ms := by
  rw [LoggingConfig.ofToml?, if_pos (Scalar.isSection_toMembers _), Toml.field?,
    Scalar.lookup?_toMembers, LoggingConfig.ofMembers?, Scalar.fold?]
  cases ms.lookup "filter" with
  | none => rfl
  | some v => cases v <;> rfl

end

section

variable {d : Sheet}

theorem Config.ofToml?_root (h : d.WellFormed) :
    Config.ofToml? (.table .header d.root) = d.config? := by
  have hsection : (Toml.table .header d.root).isSection ["output", "logging"] = true := by
    refine Toml.isSection_table fun m hm hname => ?_
    obtain ⟨m, hmem, rfl⟩ := List.mem_map.mp hm
    cases h.proper m hmem with
    | scalar v => exact v.isHeld_toToml
    | members hknown => exact absurd (by simpa using hknown) hname
  have hlookup {name : String} (hname : name = "output" ∨ name = "logging") :
      lookup? name d.root =
        (d.sections.lookup name).map fun ms => (Sheet.Entry.members ms).toToml := by
    rw [Toml.lookup?_eq_lookup, Sheet.root, lookup_map, h.lookup_entries hname, Option.map_map]
    rfl
  rw [Config.ofToml?, if_pos hsection, Toml.field?, Toml.field?, hlookup (.inl rfl),
    hlookup (.inr rfl), Sheet.config?, Sheet.members, Sheet.members]
  have houtput : ((d.sections.lookup "output").map fun ms =>
      (Sheet.Entry.members ms).toToml).elim (some {}) OutputConfig.ofToml? =
      OutputConfig.ofMembers? ((d.sections.lookup "output").getD []) := by
    cases d.sections.lookup "output" with
    | none => rfl
    | some ms => exact OutputConfig.ofToml?_toMembers
  have hlogging : ((d.sections.lookup "logging").map fun ms =>
      (Sheet.Entry.members ms).toToml).elim (some {}) LoggingConfig.ofToml? =
      LoggingConfig.ofMembers? ((d.sections.lookup "logging").getD []) := by
    cases d.sections.lookup "logging" with
    | none => rfl
    | some ms => exact LoggingConfig.ofToml?_toMembers
  rw [houtput, hlogging]

/-- The text of a sheet gives the configuration that the sheet means. -/
theorem Config.ofTomlText?_of_sheet {text : String} (hd : d.WellFormed) (h : TomlSheet text d) :
    Config.ofTomlText? text = d.config? := by
  rw [Config.ofTomlText?, Toml.ofText?_of_lines h, Sheet.ofStatements?_statements hd]
  exact Config.ofToml?_root hd

end

end Untagged
