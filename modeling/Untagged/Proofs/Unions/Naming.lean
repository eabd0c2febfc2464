import Untagged.Proofs.Shape.Exact
import Untagged.Proofs.Shape.Open
import Untagged.Proofs.Union.Recoding
import Untagged.Proofs.Unions.Orderly

/-!
# Things with a name

The two unions of named things accept the same documents, the ones that name a thing
(`NamesThing`), and read the same name.  They differ in the variant.  Tried first, the
plain record takes every object, so the labelled one is left with the arrays of two
elements.  Tried first, the labelled record takes all but the objects whose label is
of a wrong type.

Neither record looks at members other than the name and the label.
-/

namespace Untagged

variable {v : Json}

/-- The name of a thing, with or without a label. -/
def Naming.name : Naming → String
  | plain a => a.name
  | labeled a => a.name

/-- What stands for a label, or for its absence. -/
inductive LabelOf : Option String → Option Json → Prop
  | absent : LabelOf none none
  | null : LabelOf none (some .null)
  | string (s : String) : LabelOf (some s) (some (.string s))

/-- The value is of a type that a label may have. -/
def IsLabel (w : Json) : Prop := w.kind = .null ∨ w.kind = .string

theorem isLabel_iff {w : Json} : IsLabel w ↔ ∃ label, LabelOf label (some w) := by
  constructor
  · intro h
    cases w with
    | null => exact ⟨none, .null⟩
    | string s => exact ⟨some s, .string s⟩
    | _ => rcases h with h | h <;> cases h
  · intro h
    obtain ⟨label, hlabel⟩ := h
    cases hlabel with
    | null => exact .inl rfl
    | string s => exact .inr rfl

theorem labelOf_iff {label : Option String} {o : Option Json} :
    LabelOf label o ↔ Record.optionalOutcome .string o = .ok label := by
  constructor
  · intro h
    cases h <;> rfl
  · intro h
    cases o with
    | none =>
      cases h
      exact .absent
    | some w =>
      cases w with
      | null =>
        cases h
        exact .null
      | string s =>
        cases h
        exact .string s
      | _ => cases h

/-! ## The two records -/

theorem Named.isSole (recordName : String) :
    (Named.record recordName).IsSole .string (fun n a => { a with name := n })
      (.required "name" .string Named.name fun n a => { a with name := n }) where
  members := rfl
  isOpen := rfl
  required := rfl
  positional := rfl
  sets := Member.required_setsBy _ _

theorem Labeled.isBeside (recordName : String) :
    (Labeled.record recordName).IsBeside .string .string (fun n a => { a with name := n })
      (fun l a => { a with label := l })
      (.required "name" .string Labeled.name fun n a => { a with name := n })
      (.defaulted "label" .string Labeled.label fun l a => { a with label := l }) where
  orderly := Labeled.record_orderly recordName
  members := rfl
  isOpen := rfl
  required := rfl
  positional := rfl
  optional := rfl
  sets := Member.required_setsBy _ _
  setsOther := Member.defaulted_setsBy _ _
  blank _ := rfl

section

variable (hv : (v.members.map Prod.fst).Nodup)

include hv

theorem Named.decode_iff {recordName : String} {a : Named} :
    ((Named.record recordName).decode v).outcome = .ok a ↔ Sole "name" (.string a.name) v := by
  rw [(Named.isSole recordName).decode_iff hv]
  constructor
  · intro h
    obtain ⟨x, name, hsole, hx, rfl⟩ := h
    obtain rfl := Shape.string_decode_eq_ok_iff.mp hx
    exact hsole
  · intro h
    exact ⟨_, a.name, h, rfl, rfl⟩

theorem Labeled.decode_iff {recordName : String} {a : Labeled} :
    ((Labeled.record recordName).decode v).outcome = .ok a ↔
      ∃ o, Beside "name" "label" (.string a.name) o v ∧ LabelOf a.label o := by
  rw [(Labeled.isBeside recordName).decode_iff hv]
  constructor
  · intro h
    obtain ⟨x, o, name, label, hbeside, hx, ho, rfl⟩ := h
    obtain rfl := Shape.string_decode_eq_ok_iff.mp hx
    exact ⟨o, hbeside, labelOf_iff.mpr ho⟩
  · intro h
    obtain ⟨o, hbeside, ho⟩ := h
    exact ⟨_, o, a.name, a.label, hbeside, rfl, labelOf_iff.mp ho, rfl⟩

end

/-! ## The two unions -/

/-- The values that name a thing. -/
inductive NamesThing (name : String) : Json → Prop
  | member {ms : List (String × Json)} (h : Json.lookup? "name" ms = some (.string name)) :
    NamesThing name (.object ms)
  | single : NamesThing name (.array [.string name])
  | labeled {w : Json} (hw : IsLabel w) : NamesThing name (.array [.string name, w])

theorem namesThing_iff {name : String} :
    NamesThing name v ↔
      Sole "name" (.string name) v ∨
        ∃ o label, Beside "name" "label" (.string name) o v ∧ LabelOf label o := by
  constructor
  · intro h
    cases h with
    | member h => exact .inl (.member h)
    | single => exact .inl .element
    | labeled hw =>
      obtain ⟨label, hlabel⟩ := isLabel_iff.mp hw
      exact .inr ⟨_, label, .elements, hlabel⟩
  · intro h
    rcases h with hsole | ⟨o, label, hbeside, hlabel⟩
    · cases hsole with
      | member h => exact .member h
      | element => exact .single
    · cases hbeside with
      | members h _ => exact .member h
      | single => exact .single
      | elements => exact .labeled (isLabel_iff.mpr ⟨label, hlabel⟩)

theorem NamesThing.isContainer {name : String} (h : NamesThing name v) :
    v.kind.isContainer = true := by
  cases h <;> rfl

section

variable (hv : (v.members.map Prod.fst).Nodup)

include hv

theorem plain_accepts_iff {candidateName recordName : String} {x : Naming} :
    (Candidate.ofShape candidateName (Named.record recordName).shape .plain).Accepts v x ↔
      ∃ a, x = .plain a ∧ Sole "name" (.string a.name) v := by
  rw [Candidate.ofShape_accepts_iff]
  constructor
  · intro h
    obtain ⟨a, ha, rfl⟩ := h
    exact ⟨a, rfl, (Named.decode_iff hv).mp ha⟩
  · intro h
    obtain ⟨a, rfl, ha⟩ := h
    exact ⟨a, (Named.decode_iff hv).mpr ha, rfl⟩

theorem labeled_accepts_iff {candidateName recordName : String} {x : Naming} :
    (Candidate.ofShape candidateName (Labeled.record recordName).shape .labeled).Accepts v x ↔
      ∃ a o, x = .labeled a ∧ Beside "name" "label" (.string a.name) o v ∧ LabelOf a.label o := by
  rw [Candidate.ofShape_accepts_iff]
  constructor
  · intro h
    obtain ⟨a, ha, rfl⟩ := h
    obtain ⟨o, ho⟩ := (Labeled.decode_iff hv).mp ha
    exact ⟨a, o, rfl, ho⟩
  · intro h
    obtain ⟨a, o, rfl, ho⟩ := h
    exact ⟨a, (Labeled.decode_iff hv).mpr ⟨o, ho⟩, rfl⟩

/-- The plain record, tried first, takes what has a name alone and all other members
of objects; so only arrays of two elements are left. -/
theorem namedFirst_decode_iff {x : Naming} :
    (namedFirst.decode v).outcome = .ok (.holding x) ↔
      match x with
      | .plain a => Sole "name" (.string a.name) v
      | .labeled a => ∃ w, v = .array [.string a.name, w] ∧ LabelOf a.label (some w) := by
  rw [Union.decode_two_iff (u := namedFirst) rfl, Candidate.rejects_iff, labeled_accepts_iff hv]
  simp only [plain_accepts_iff hv]
  cases x with
  | plain a =>
    constructor
    · intro h
      obtain ⟨-, ⟨b, heq, hsole⟩ | ⟨-, b, o, heq, -⟩⟩ := h
      · cases heq
        exact hsole
      · cases heq
    · intro h
      exact ⟨(namesThing_iff.mpr (.inl h)).isContainer, .inl ⟨a, rfl, h⟩⟩
  | labeled a =>
    constructor
    · intro h
      obtain ⟨-, ⟨b, heq, -⟩ | ⟨hnone, b, o, heq, hbeside, hlabel⟩⟩ := h
      · cases heq
      · cases heq
        cases hbeside with
        | members h _ => exact absurd ⟨⟨a.name⟩, rfl, .member h⟩ (hnone _)
        | single => exact absurd ⟨⟨a.name⟩, rfl, .element⟩ (hnone _)
        | elements => exact ⟨_, rfl, hlabel⟩
    · intro h
      obtain ⟨w, rfl, hlabel⟩ := h
      refine ⟨rfl, .inr ⟨fun y hy => ?_, a, some w, rfl, .elements, hlabel⟩⟩
      obtain ⟨b, -, hsole⟩ := hy
      exact hsole.not_two

/-- The labelled record, tried first, takes all that names a thing but the objects with
a label of a wrong type. -/
theorem labeledFirst_decode_iff {x : Naming} :
    (labeledFirst.decode v).outcome = .ok (.holding x) ↔
      match x with
      | .plain a => ∃ ms w, v = .object ms ∧ Json.lookup? "name" ms = some (.string a.name) ∧
          Json.lookup? "label" ms = some w ∧ ¬ IsLabel w
      | .labeled a => ∃ o, Beside "name" "label" (.string a.name) o v ∧ LabelOf a.label o := by
  rw [Union.decode_two_iff (u := labeledFirst) rfl, Candidate.rejects_iff, plain_accepts_iff hv]
  simp only [labeled_accepts_iff hv]
  cases x with
  | labeled a =>
    constructor
    · intro h
      obtain ⟨-, ⟨b, o, heq, hform⟩ | ⟨-, b, heq, -⟩⟩ := h
      · cases heq
        exact ⟨o, hform⟩
      · cases heq
    · intro h
      obtain ⟨o, hform⟩ := h
      exact ⟨(namesThing_iff.mpr (.inr ⟨o, a.label, hform⟩)).isContainer, .inl ⟨a, o, rfl, hform⟩⟩
  | plain a =>
    constructor
    · intro h
      obtain ⟨-, ⟨b, o, heq, -⟩ | ⟨hnone, b, heq, hsole⟩⟩ := h
      · cases heq
      · cases heq
        cases hsole with
        | @member ms hname =>
          cases hlabel : Json.lookup? "label" ms with
          | none =>
            exact absurd ⟨⟨a.name, none⟩, none, rfl, .members hname hlabel, .absent⟩ (hnone _)
          | some w =>
            refine ⟨ms, w, rfl, hname, hlabel, fun hw => ?_⟩
            obtain ⟨label, hw⟩ := isLabel_iff.mp hw
            exact absurd ⟨⟨a.name, label⟩, some w, rfl, .members hname hlabel, hw⟩ (hnone _)
        | element => exact absurd ⟨⟨a.name, none⟩, none, rfl, .single, .absent⟩ (hnone _)
    · intro h
      obtain ⟨ms, w, rfl, hname, hlabel, hw⟩ := h
      refine ⟨rfl, .inr ⟨fun y hy => ?_, a, rfl, .member hname⟩⟩
      obtain ⟨b, o, -, hbeside, ho⟩ := hy
      cases hbeside with
      | members _ hlabel' =>
        obtain rfl : some w = o := hlabel.symm.trans hlabel'
        exact hw (isLabel_iff.mpr ⟨b.label, ho⟩)

theorem namedFirst_name_iff {name : String} :
    (∃ a, (namedFirst.decode v).outcome = .ok (.holding a) ∧ a.name = name) ↔
      NamesThing name v := by
  rw [namesThing_iff]
  constructor
  · intro h
    obtain ⟨x, hx, rfl⟩ := h
    have hform := (namedFirst_decode_iff hv).mp hx
    cases x with
    | plain a => exact .inl hform
    | labeled a =>
      obtain ⟨w, rfl, hlabel⟩ := hform
      exact .inr ⟨some w, a.label, .elements, hlabel⟩
  · intro h
    rcases h with hsole | ⟨o, label, hbeside, hlabel⟩
    · exact ⟨.plain ⟨name⟩, (namedFirst_decode_iff hv).mpr hsole, rfl⟩
    · cases hbeside with
      | members h _ => exact ⟨.plain ⟨name⟩, (namedFirst_decode_iff hv).mpr (.member h), rfl⟩
      | single => exact ⟨.plain ⟨name⟩, (namedFirst_decode_iff hv).mpr .element, rfl⟩
      | elements =>
        exact ⟨.labeled ⟨name, label⟩, (namedFirst_decode_iff hv).mpr ⟨_, rfl, hlabel⟩, rfl⟩

theorem labeledFirst_name_iff {name : String} :
    (∃ a, (labeledFirst.decode v).outcome = .ok (.holding a) ∧ a.name = name) ↔
      NamesThing name v := by
  rw [namesThing_iff]
  constructor
  · intro h
    obtain ⟨x, hx, rfl⟩ := h
    have hform := (labeledFirst_decode_iff hv).mp hx
    cases x with
    | plain a =>
      obtain ⟨ms, w, rfl, hname, -⟩ := hform
      exact .inl (.member hname)
    | labeled a =>
      obtain ⟨o, hbeside, hlabel⟩ := hform
      exact .inr ⟨o, a.label, hbeside, hlabel⟩
  · intro h
    have hlabeled {o : Option Json} {label : Option String}
        (hbeside : Beside "name" "label" (.string name) o v) (hlabel : LabelOf label o) :
        ∃ a, (labeledFirst.decode v).outcome = .ok (.holding a) ∧ a.name = name :=
      ⟨.labeled ⟨name, label⟩, (labeledFirst_decode_iff hv).mpr ⟨o, hbeside, hlabel⟩, rfl⟩
    rcases h with hsole | ⟨o, label, hbeside, hlabel⟩
    · cases hsole with
      | @member ms hname =>
        cases hw : Json.lookup? "label" ms with
        | none => exact hlabeled (.members hname hw) .absent
        | some w =>
          by_cases hlabel : IsLabel w
          · obtain ⟨label, hlabel⟩ := isLabel_iff.mp hlabel
            exact hlabeled (.members hname hw) hlabel
          · exact ⟨.plain ⟨name⟩,
              (labeledFirst_decode_iff hv).mpr ⟨ms, w, rfl, hname, hw, hlabel⟩, rfl⟩
      | element => exact hlabeled .single .absent
    · exact hlabeled hbeside hlabel

end

/-! ## Members that do not matter -/

/-- The members that either record knows. -/
def isThingMember (m : String × Json) : Bool := m.1 = "name" || m.1 = "label"

theorem Named.decode_thingMembers (recordName : String) (ms : List (String × Json)) :
    (Named.record recordName).decode (.object (ms.filter isThingMember)) =
      (Named.record recordName).decode (.object ms) := by
  have hkeep : ∀ name ∈ (Named.record recordName).names,
      (decide (name = "name") || decide (name = "label")) = true :=
    List.forall_mem_singleton.mpr rfl
  exact Record.decode_object_filter rfl hkeep

theorem Labeled.decode_thingMembers (recordName : String) (ms : List (String × Json)) :
    (Labeled.record recordName).decode (.object (ms.filter isThingMember)) =
      (Labeled.record recordName).decode (.object ms) := by
  have hkeep : ∀ name ∈ (Labeled.record recordName).names,
      (decide (name = "name") || decide (name = "label")) = true :=
    List.forall_mem_cons.mpr ⟨rfl, List.forall_mem_singleton.mpr rfl⟩
  exact Record.decode_object_filter rfl hkeep

/-- Objects with the same names and labels are decoded alike. -/
theorem decode_thing_congr {u : Union Naming}
    (hu : ∀ c ∈ u.candidates, ∀ ms, c.decode (.object (ms.filter isThingMember)) =
      c.decode (.object ms))
    {ms ns : List (String × Json)} (h : ms.filter isThingMember = ns.filter isThingMember) :
    (u.decode (.object ms)).outcome = (u.decode (.object ns)).outcome := by
  refine Union.outcome_decode_congr rfl fun c hc => ?_
  rw [← hu c hc ms, h, hu c hc ns]

theorem plainCandidate_thingMembers (candidateName recordName : String)
    (ms : List (String × Json)) :
    (Candidate.ofShape candidateName (Named.record recordName).shape Naming.plain).decode
        (.object (ms.filter isThingMember)) =
      (Candidate.ofShape candidateName (Named.record recordName).shape Naming.plain).decode
        (.object ms) :=
  congrArg (Attempt.map Naming.plain) (Named.decode_thingMembers recordName ms)

theorem labeledCandidate_thingMembers (candidateName recordName : String)
    (ms : List (String × Json)) :
    (Candidate.ofShape candidateName (Labeled.record recordName).shape Naming.labeled).decode
        (.object (ms.filter isThingMember)) =
      (Candidate.ofShape candidateName (Labeled.record recordName).shape Naming.labeled).decode
        (.object ms) :=
  congrArg (Attempt.map Naming.labeled) (Labeled.decode_thingMembers recordName ms)

theorem namedFirst_thingMembers : ∀ c ∈ namedFirst.candidates, ∀ ms,
    c.decode (.object (ms.filter isThingMember)) = c.decode (.object ms) :=
  List.forall_mem_cons.mpr ⟨plainCandidate_thingMembers _ _,
    List.forall_mem_singleton.mpr (labeledCandidate_thingMembers _ _)⟩

theorem labeledFirst_thingMembers : ∀ c ∈ labeledFirst.candidates, ∀ ms,
    c.decode (.object (ms.filter isThingMember)) = c.decode (.object ms) :=
  List.forall_mem_cons.mpr ⟨labeledCandidate_thingMembers _ _,
    List.forall_mem_singleton.mpr (plainCandidate_thingMembers _ _)⟩

/-! ## What is made of a labelled thing -/

theorem Labeled.legible (recordName : String) (a : Labeled) (float : Double → Json)
    (levels : Nat) : ((Labeled.record recordName).encode a).LegibleWith float (levels + 1) := by
  refine ⟨(Record.names_writeMembers_sublist a (Labeled.record recordName).members).nodup ?_, ?_⟩
  · show ["name", "label"].Nodup
    decide
  · obtain ⟨name, label⟩ := a
    cases label with
    | none => exact ⟨trivial, trivial, trivial⟩
    | some l => exact ⟨trivial, trivial, trivial⟩

/-- The plain record reads what is written for a labelled thing. -/
theorem namedFirst_decode_labeled (a : Labeled) :
    (namedFirst.decode (namedFirst.toJson (.holding (.labeled a)))).outcome =
      .ok (.holding (.plain ⟨a.name⟩)) := by
  have hv : ((namedFirst.toJson (.holding (.labeled a))).members.map Prod.fst).Nodup := by
    show ["name", "label"].Nodup
    decide
  exact (namedFirst_decode_iff hv).mpr (.member rfl)

/-! ## The variant -/

theorem Naming.variantName_eq_labeled_iff {plainName labeledName : String}
    (h : plainName ≠ labeledName) {x : Naming} :
    (x.variantName plainName labeledName = labeledName ↔ ∃ a, x = .labeled a) ∧
      (x.variantName plainName labeledName = plainName ↔ ¬ ∃ a, x = .labeled a) := by
  cases x with
  | plain a => simp [variantName, h]
  | labeled a => simp [variantName, h.symm]

/-- The value is the array of a name and a label. -/
def IsNamePair (v : Json) : Prop :=
  ∃ name w, v = .array [.string name, w] ∧ (w.kind = .null ∨ w.kind = .string)

/-- The value is an object with a label of a type that a label may not have. -/
def IsMislabeled (v : Json) : Prop :=
  ∃ ms w, v = .object ms ∧ ("label", w) ∈ ms ∧ w.kind ≠ .null ∧ w.kind ≠ .string

/-- What the two unions of named things make of a value. -/
structure ResolvesByForm (v : Json) : Prop where
  /-- Both accept it or neither does, and they read the same name. -/
  agree : Agree (fun _ _ => True)
    (fun x y => ∃ a b : Naming, x = .holding a ∧ y = .holding b ∧ a.name = b.name)
    (namedFirst.decode v).outcome (labeledFirst.decode v).outcome
  /-- They accept what names a thing, and read that name. -/
  names : ∀ name, (∃ a, (namedFirst.decode v).outcome = .ok (.holding a) ∧ a.name = name) ↔
    NamesThing name v
  /-- With the plain record first, the labelled one is left with the pairs. -/
  plainFirst : ∀ x, (namedFirst.decode v).outcome = .ok x →
    (namedFirst.variantName? x = some "Labeled" ↔ IsNamePair v) ∧
    (namedFirst.variantName? x = some "Named" ↔ ¬ IsNamePair v)
  /-- With the labelled record first, the plain one is left with the mislabelled objects. -/
  labeledFirst : ∀ y, (labeledFirst.decode v).outcome = .ok y →
    (labeledFirst.variantName? y = some "Tag" ↔ IsMislabeled v) ∧
    (labeledFirst.variantName? y = some "Note" ↔ ¬ IsMislabeled v)

section

variable (hv : (v.members.map Prod.fst).Nodup)

include hv

theorem namedFirst_labeled_iff {x : Naming}
    (hx : (namedFirst.decode v).outcome = .ok (.holding x)) :
    (∃ a, x = .labeled a) ↔ IsNamePair v := by
  have hform := (namedFirst_decode_iff hv).mp hx
  cases x with
  | plain a =>
    constructor
    · intro h
      obtain ⟨b, hb⟩ := h
      cases hb
    · intro h
      obtain ⟨name, w, rfl, -⟩ := h
      exact absurd hform Sole.not_two
  | labeled a =>
    obtain ⟨w, rfl, hlabel⟩ := hform
    have hw : IsLabel w := isLabel_iff.mpr ⟨a.label, hlabel⟩
    exact ⟨fun _ => ⟨a.name, w, rfl, hw⟩, fun _ => ⟨a, rfl⟩⟩

theorem labeledFirst_labeled_iff {x : Naming}
    (hx : (labeledFirst.decode v).outcome = .ok (.holding x)) :
    (∃ a, x = .labeled a) ↔ ¬ IsMislabeled v := by
  have hform := (labeledFirst_decode_iff hv).mp hx
  cases x with
  | plain a =>
    obtain ⟨ms, w, rfl, -, hlabel, hw⟩ := hform
    constructor
    · intro h
      obtain ⟨b, hb⟩ := h
      cases hb
    · intro h
      exact absurd ⟨ms, w, rfl, Json.mem_of_lookup? hlabel, not_or.mp hw⟩ h
  | labeled a =>
    obtain ⟨o, hbeside, hlabel⟩ := hform
    refine ⟨fun _ h => ?_, fun _ => ⟨a, rfl⟩⟩
    obtain ⟨ms, w, rfl, hmem, hnull, hstring⟩ := h
    cases hbeside with
    | members _ ho =>
      have hthere : Json.lookup? "label" ms = some w := (Json.lookup?_eq_some_iff hv).mpr hmem
      obtain rfl : some w = o := hthere.symm.trans ho
      exact not_or_intro hnull hstring (isLabel_iff.mpr ⟨a.label, hlabel⟩)

/-- Both unions accept what names a thing, and read its name. -/
theorem namedFirst_agrees_labeledFirst :
    Agree (fun _ _ => True)
      (fun x y => ∃ a b : Naming, x = .holding a ∧ y = .holding b ∧ a.name = b.name)
      (namedFirst.decode v).outcome (labeledFirst.decode v).outcome := by
  refine .of_ok (fun x hx => ?_) fun y hy => ?_
  · obtain ⟨-, k, a, -, rfl⟩ := Union.decode_eq_ok_iff.mp hx
    obtain ⟨b, hb, hname⟩ :=
      (labeledFirst_name_iff hv).mpr ((namedFirst_name_iff hv).mp ⟨a, hx, rfl⟩)
    exact ⟨.holding b, hb, a, b, rfl, rfl, hname.symm⟩
  · obtain ⟨-, k, b, -, rfl⟩ := Union.decode_eq_ok_iff.mp hy
    obtain ⟨a, ha, -⟩ := (namedFirst_name_iff hv).mpr ((labeledFirst_name_iff hv).mp ⟨b, hy, rfl⟩)
    exact ⟨.holding a, ha⟩

theorem resolvesByForm : ResolvesByForm v where
  agree := namedFirst_agrees_labeledFirst hv
  names _ := namedFirst_name_iff hv
  plainFirst x hx := by
    obtain ⟨-, k, a, -, rfl⟩ := Union.decode_eq_ok_iff.mp hx
    have hname : (a.variantName "Named" "Labeled" = "Labeled" ↔ _) ∧ _ :=
      Naming.variantName_eq_labeled_iff (by decide)
    simp only [Union.variantName?, OneOf.variant?, Option.map_some, Option.some.injEq]
    rw [← namedFirst_labeled_iff hv hx]
    exact hname
  labeledFirst y hy := by
    obtain ⟨-, k, b, -, rfl⟩ := Union.decode_eq_ok_iff.mp hy
    have hname : (b.variantName "Tag" "Note" = "Note" ↔ _) ∧ _ :=
      Naming.variantName_eq_labeled_iff (by decide)
    simp only [Union.variantName?, OneOf.variant?, Option.map_some, Option.some.injEq]
    have hlabeled := labeledFirst_labeled_iff hv hy
    exact ⟨hname.2.trans (not_congr hlabeled |>.trans not_not), hname.1.trans hlabeled⟩

end

/-- The form of a value decides what the unions of named things make of it.  Members other
than the name and the label do not matter.  A labelled thing comes back as a plain one from
the union that tries the plain record first, so this union loses its label. -/
theorem things_resolve_by_form :
    (∀ body : Json.Body, ResolvesByForm body.value) ∧
    (∀ ms ns : List (String × Json), ms.filter isThingMember = ns.filter isThingMember →
      (namedFirst.decode (.object ms)).outcome = (namedFirst.decode (.object ns)).outcome ∧
      (labeledFirst.decode (.object ms)).outcome = (labeledFirst.decode (.object ns)).outcome) ∧
    ∀ a : Labeled, namedFirst.ReadsBack (.holding (.labeled a)) (.holding (.plain ⟨a.name⟩)) := by
  refine ⟨fun body => resolvesByForm body.nodup, fun ms ns h => ⟨?_, ?_⟩, fun a => ?_⟩
  · exact decode_thing_congr namedFirst_thingMembers h
  · exact decode_thing_congr labeledFirst_thingMembers h
  · exact .of_value (a.legible _ _ _) (namedFirst_decode_labeled a)

/-- A label that is a truth value hands the object to the other variant, and what is nested
beside it does not matter. -/
theorem mislabeled_desk_resolves :
    let mislabeled : List (String × Json) := [("name", .string "desk"), ("label", .boolean true)]
    let ms : List (String × Json) :=
      ("extra", .object [("name", .array [.null])]) :: mislabeled
    let pair : Json := .array [.string "desk", .null]
    ms.filter isThingMember = mislabeled.filter isThingMember ∧
    NamesThing "desk" (.object ms) ∧
    (∀ x, (namedFirst.decode (.object ms)).outcome = .ok x →
      namedFirst.variantName? x = some "Named") ∧
    (∀ y, (labeledFirst.decode (.object ms)).outcome = .ok y →
      labeledFirst.variantName? y = some "Tag") ∧
    (∀ x, (namedFirst.decode pair).outcome = .ok x →
      namedFirst.variantName? x = some "Labeled") ∧
    (labeledFirst.decode (.object ms)).outcome =
      (labeledFirst.decode (.object mislabeled)).outcome := by
  intro mislabeled ms pair
  obtain ⟨hforms, hothers, -⟩ := things_resolve_by_form
  have hms : ((Json.object ms).members.map Prod.fst).Nodup := by
    show ["extra", "name", "label"].Nodup
    decide
  have hdesk := hforms ⟨.object ms, hms⟩
  have hpair := hforms ⟨pair, List.nodup_nil⟩
  have hsame : ms.filter isThingMember = mislabeled.filter isThingMember := rfl
  refine ⟨hsame, .member rfl, fun x hx => (hdesk.plainFirst x hx).2.mpr ?_,
    fun y hy => (hdesk.labeledFirst y hy).1.mpr ?_, fun x hx => (hpair.plainFirst x hx).1.mpr ?_,
    (hothers _ _ hsame).2⟩
  · intro h
    obtain ⟨name, w, heq, -⟩ := h
    cases heq
  · exact ⟨ms, .boolean true, rfl, by simp [ms, mislabeled], nofun, nofun⟩
  · exact ⟨"desk", .null, rfl, .inl rfl⟩

end Untagged
