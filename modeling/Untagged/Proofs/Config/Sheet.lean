import Untagged.Config
import Untagged.Json.Datum
import Untagged.Toml.Basic

/-!
# What a configuration file says

A `Sheet` is what a configuration file says, in either format: sections with their
members, and members beside the sections.  The members are truth values, strings and
64-bit integers.  What a sheet means hangs on two members alone, whatever stands
beside them and in whatever order (`Sheet.config?_of_sets`), and a sheet whose member
is of another type means nothing (`Sheet.config?_of_mistyped`).
-/

namespace Untagged

/-! ## Names and members -/

section

variable {α : Type} {name : String} {ms : List (String × α)}

theorem lookup_cons_of_ne {m : String × α} (h : name ≠ m.1) :
    (m :: ms).lookup name = ms.lookup name := by
  rw [List.lookup_cons, beq_eq_false_iff_ne.mpr h]

theorem lookup_map {β : Type} (f : α → β) :
    (ms.map fun m => (m.1, f m.2)).lookup name = (ms.lookup name).map f := by
  induction ms with
  | nil => rfl
  | cons m ms ih =>
    rw [List.map_cons, List.lookup_cons, List.lookup_cons]
    cases name == m.1 with
    | true => rfl
    | false => exact ih

theorem lookup_eq_none (h : name ∉ ms.map Prod.fst) : ms.lookup name = none := by
  rw [List.lookup_eq_none_iff]
  intro m hm
  exact bne_iff_ne.mpr fun heq => h (heq ▸ List.mem_map_of_mem hm)

/-- Where names are distinct, a name leads to the member that has it. -/
theorem lookup_eq_some_iff (h : (ms.map Prod.fst).Nodup) {a : α} :
    ms.lookup name = some a ↔ (name, a) ∈ ms := by
  induction ms with
  | nil => simp
  | cons m ms ih =>
    obtain ⟨n, b⟩ := m
    rw [List.map_cons, List.nodup_cons] at h
    rw [List.mem_cons]
    by_cases hname : name = n
    · subst hname
      have hnot : (name, a) ∉ ms := fun hmem => h.1 (List.mem_map.mpr ⟨_, hmem, rfl⟩)
      rw [List.lookup_cons_self, or_iff_left hnot, Prod.mk.injEq, Option.some.injEq, and_iff_right rfl]
      exact eq_comm
    · have hne : (name, a) ≠ (n, b) := fun heq => hname (congrArg Prod.fst heq)
      rw [lookup_cons_of_ne hname, ih h.2, or_iff_right hne]

/-- The order of members with distinct names does not matter. -/
theorem lookup_perm {ns : List (String × α)} (h : (ms.map Prod.fst).Nodup) (hperm : ms.Perm ns) :
    ms.lookup name = ns.lookup name := by
  have hns : (ns.map Prod.fst).Nodup := (hperm.map Prod.fst).nodup_iff.mp h
  refine Option.ext fun a => ?_
  rw [lookup_eq_some_iff h, lookup_eq_some_iff hns]
  exact hperm.mem_iff

end

/-! ## Sheets -/

/-- The value of a member. -/
inductive Scalar where
  | boolean (b : Bool)
  | string (s : String)
  | integer (i : Int64)
  deriving DecidableEq, Repr

namespace Scalar

def toDatum : Scalar → Datum
  | boolean b => .boolean b
  | string s => .string s
  | integer i => .integer (.ofInt64 i)

def toJson : Scalar → Json
  | boolean b => .boolean b
  | string s => .string s
  | integer i => .number (.integer (.ofInt64 i))

def toToml : Scalar → Toml
  | boolean b => .boolean b
  | string s => .string s
  | integer i => .integer i.toInt

def boolean? : Scalar → Option Bool
  | boolean b => some b
  | _ => none

def string? : Scalar → Option String
  | string s => some s
  | _ => none

end Scalar

/-- The record that members make of its defaults, where only the member of one name
counts. -/
def Scalar.fold? {σ : Type} (name : String) (set? : Scalar → σ → Option σ)
    (ms : List (String × Scalar)) (x : σ) : Option σ :=
  match ms.lookup name with
  | some v => set? v x
  | none => some x

def OutputConfig.set? (v : Scalar) (o : OutputConfig) : Option OutputConfig :=
  v.boolean?.map fun b => { o with pretty := b }

def LoggingConfig.set? (v : Scalar) (l : LoggingConfig) : Option LoggingConfig :=
  v.string?.map fun s => { l with filter := s }

/-- The output section with these members. -/
def OutputConfig.ofMembers? (ms : List (String × Scalar)) : Option OutputConfig :=
  Scalar.fold? "pretty" OutputConfig.set? ms {}

/-- The logging section with these members. -/
def LoggingConfig.ofMembers? (ms : List (String × Scalar)) : Option LoggingConfig :=
  Scalar.fold? "filter" LoggingConfig.set? ms {}

/-- What a configuration file says. -/
structure Sheet where
  /-- The members beside the sections. -/
  extras : List (String × Scalar)
  /-- The sections that are there, with their members. -/
  sections : List (String × List (String × Scalar))

namespace Sheet

/-- What stands at the top of a sheet under a name. -/
inductive Entry where
  | scalar (v : Scalar)
  | members (ms : List (String × Scalar))

/-- The section that `ofMembers?` makes of an entry. -/
def Entry.section? {σ : Type} (ofMembers? : List (String × Scalar) → Option σ) :
    Entry → Option σ
  | scalar _ => none
  | members ms => ofMembers? ms

def entries (d : Sheet) : List (String × Entry) :=
  (d.extras.map fun m => (m.1, .scalar m.2)) ++ d.sections.map fun s => (s.1, .members s.2)

def Entry.toDatum : Entry → Datum
  | scalar v => v.toDatum
  | members ms => .record (ms.map fun m => (m.1, m.2.toDatum))

/-- The sheet as data. -/
def toDatum (d : Sheet) : Datum := .record (d.entries.map fun m => (m.1, m.2.toDatum))

variable {d : Sheet}

/-- Nothing is said twice, and the sections are the two that there are. -/
structure WellFormed (d : Sheet) : Prop where
  extras : (d.extras.map Prod.fst).Nodup
  others : ∀ m ∈ d.extras, m.1 ≠ "output" ∧ m.1 ≠ "logging"
  sections : (d.sections.map Prod.fst).Nodup
  known : ∀ s ∈ d.sections, s.1 = "output" ∨ s.1 = "logging"
  members : ∀ s ∈ d.sections, (s.2.map Prod.fst).Nodup

/-- The entry says nothing twice, and is a section if and only if it has the name of
one. -/
inductive Proper : String × Entry → Prop
  | scalar {name : String} (v : Scalar) (hname : name ≠ "output" ∧ name ≠ "logging") :
    Proper (name, .scalar v)
  | members {name : String} {ms : List (String × Scalar)}
    (hname : name = "output" ∨ name = "logging") (hms : (ms.map Prod.fst).Nodup) :
    Proper (name, .members ms)

theorem WellFormed.proper (h : d.WellFormed) : ∀ m ∈ d.entries, Proper m := by
  intro m hm
  rcases List.mem_append.mp hm with hm | hm
  · obtain ⟨⟨name, v⟩, hmem, rfl⟩ := List.mem_map.mp hm
    exact .scalar v (h.others _ hmem)
  · obtain ⟨⟨name, ms⟩, hmem, rfl⟩ := List.mem_map.mp hm
    exact .members (h.known _ hmem) (h.members _ hmem)

theorem map_fst_entries (d : Sheet) :
    d.entries.map Prod.fst = d.extras.map Prod.fst ++ d.sections.map Prod.fst := by
  rw [entries, List.map_append, List.map_map, List.map_map]
  rfl

theorem WellFormed.nodup_entries (h : d.WellFormed) : (d.entries.map Prod.fst).Nodup := by
  rw [map_fst_entries, List.nodup_append]
  refine ⟨h.extras, h.sections, ?_⟩
  rintro name hextra _ hsection rfl
  obtain ⟨m, hm, rfl⟩ := List.mem_map.mp hextra
  obtain ⟨s, hs, heq⟩ := List.mem_map.mp hsection
  rcases h.known s hs with hknown | hknown
  · exact (h.others m hm).1 (heq ▸ hknown)
  · exact (h.others m hm).2 (heq ▸ hknown)

/-- Under the name of a section there stands nothing else. -/
theorem WellFormed.lookup_entries (h : d.WellFormed) {name : String}
    (hname : name = "output" ∨ name = "logging") :
    d.entries.lookup name = (d.sections.lookup name).map .members := by
  have hextra : (d.extras.map fun m => (m.1, Entry.scalar m.2)).lookup name = none := by
    refine lookup_eq_none fun hmem => ?_
    rw [List.map_map] at hmem
    obtain ⟨m, hm, rfl⟩ := List.mem_map.mp hmem
    rcases hname with hname | hname
    · exact (h.others m hm).1 hname
    · exact (h.others m hm).2 hname
  rw [entries, List.lookup_append, hextra, Option.none_or, lookup_map]

/-- The members of a section; one that is absent has none. -/
def members (d : Sheet) (name : String) : List (String × Scalar) :=
  (d.sections.lookup name).getD []

/-- The configuration that the sheet means. -/
def config? (d : Sheet) : Option Config := do
  let output ← OutputConfig.ofMembers? (d.members "output")
  let logging ← LoggingConfig.ofMembers? (d.members "logging")
  some ⟨output, logging⟩

/-- The sheet sets `pretty` to `p` and `filter` to `f`, where these are there. -/
structure Sets (d : Sheet) (p : Option Bool) (f : Option String) : Prop where
  pretty : (d.members "output").lookup "pretty" = p.map .boolean
  filter : (d.members "logging").lookup "filter" = f.map .string

/-- One of the two members is there and of another type. -/
def Mistyped (d : Sheet) : Prop :=
  (∃ v, (d.members "output").lookup "pretty" = some v ∧ ∀ b, v ≠ .boolean b) ∨
    ∃ v, (d.members "logging").lookup "filter" = some v ∧ ∀ s, v ≠ .string s

theorem config?_of_sets {p : Option Bool} {f : Option String} (h : d.Sets p f) :
    d.config? = some ⟨⟨p.getD true⟩, ⟨f.getD "info"⟩⟩ := by
  have houtput : OutputConfig.ofMembers? (d.members "output") = some ⟨p.getD true⟩ := by
    rw [OutputConfig.ofMembers?, Scalar.fold?, h.pretty]
    cases p <;> rfl
  have hlogging : LoggingConfig.ofMembers? (d.members "logging") = some ⟨f.getD "info"⟩ := by
    rw [LoggingConfig.ofMembers?, Scalar.fold?, h.filter]
    cases f <;> rfl
  rw [config?, houtput, hlogging]
  rfl

theorem config?_of_mistyped (h : d.Mistyped) : d.config? = none := by
  rcases h with ⟨v, hv, hne⟩ | ⟨v, hv, hne⟩
  · have houtput : OutputConfig.ofMembers? (d.members "output") = none := by
      rw [OutputConfig.ofMembers?, Scalar.fold?, hv]
      cases v with
      | boolean b => exact absurd rfl (hne b)
      | _ => rfl
    rw [config?, houtput]
    rfl
  · have hlogging : LoggingConfig.ofMembers? (d.members "logging") = none := by
      rw [LoggingConfig.ofMembers?, Scalar.fold?, hv]
      cases v with
      | string s => exact absurd rfl (hne s)
      | _ => rfl
    rw [config?, hlogging]
    cases OutputConfig.ofMembers? (d.members "output") <;> rfl

end Sheet

end Untagged
