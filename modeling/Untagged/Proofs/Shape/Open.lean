import Mathlib.Data.List.Find
import Untagged.Proofs.Schema.Records

/-!
# Open records

An open record passes by the members that it does not know, wherever they stand and
whatever they hold (`Record.decode_object_filter`).  So an object is read by what it
has under the names that the record knows (`Record.decode_open_eq_ok_iff`).

Of a record with one member, which must be there, `Sole` is the form of what is read
(`Record.IsSole.decode_iff`), and of a record with an optional member beside it,
`Beside` is (`Record.IsBeside.decode_iff`).
-/

namespace Untagged

namespace Record

variable {σ : Type} {r : Record σ} {given : List (String × Json)} {t : σ}

/-! ## Members that are passed by -/

theorem readMembers_filter (hopen : r.closed = false) {keep : String → Bool}
    (hkeep : ∀ name ∈ r.names, keep name = true) (seen : List String) (s : σ) :
    r.readMembers seen (given.filter fun m => keep m.1) s = r.readMembers seen given s := by
  induction given generalizing seen s with
  | nil => rfl
  | cons p given ih =>
    obtain ⟨name, v⟩ := p
    rw [List.filter_cons]
    by_cases hname : keep name = true
    · rw [if_pos hname, readMembers, readMembers]
      cases r.member? name with
      | none => simp only [ih]
      | some m =>
        have hrest : r.readMembers (name :: seen) (given.filter fun m => keep m.1) =
            r.readMembers (name :: seen) given := funext fun s => ih (name :: seen) s
        simp only [hrest]
    · -- What is not kept is not known, and is passed by.
      have hunknown : r.member? name = none :=
        member?_eq_none_iff.mpr fun hmem => hname (hkeep name hmem)
      rw [if_neg hname, ih, readMembers, hunknown]
      simp only [hopen, Bool.false_eq_true, if_false]

theorem missing?_filter {keep : String → Bool} (hkeep : ∀ name ∈ r.names, keep name = true) :
    r.missing? (given.filter fun m => keep m.1) = r.missing? given := by
  have hthere : ∀ m ∈ r.members,
      m.name ∈ (given.filter fun m => keep m.1).map Prod.fst ↔ m.name ∈ given.map Prod.fst := by
    intro m hm
    have hname : keep m.name = true := hkeep m.name (List.mem_map_of_mem hm)
    rw [List.mem_map, List.mem_map]
    constructor
    · intro h
      obtain ⟨p, hp, heq⟩ := h
      exact ⟨p, (List.mem_filter.mp hp).1, heq⟩
    · intro h
      obtain ⟨p, hp, heq⟩ := h
      exact ⟨p, List.mem_filter.mpr ⟨hp, heq ▸ hname⟩, heq⟩
  rw [missing?, missing?]
  refine List.find?_congr fun m hm => ?_
  rw [Bool.eq_iff_iff]
  simp only [Bool.and_eq_true, Bool.not_eq_true', List.contains_eq_mem, decide_eq_false_iff_not,
    hthere m hm]

/-- An open record reads an object by the members that it knows. -/
theorem decode_object_filter (hopen : r.closed = false) {keep : String → Bool}
    (hkeep : ∀ name ∈ r.names, keep name = true) :
    r.decode (.object (given.filter fun m => keep m.1)) = r.decode (.object given) := by
  show r.ofMembers _ = r.ofMembers given
  rw [ofMembers, ofMembers, readMembers_filter hopen hkeep, missing?_filter hkeep]

/-- An open record reads what is there under the names of its members. -/
theorem decode_open_eq_ok_iff (h : r.Orderly) (hopen : r.closed = false)
    (hgiven : (given.map Prod.fst).Nodup) :
    (r.decode (.object given)).outcome = .ok t ↔
      (∀ m ∈ r.members, m.isRequired = true → Json.lookup? m.name given ≠ none) ∧
        (readAll (declared given r.members) r.blank).outcome = .ok t := by
  have hthere {m : Member σ} :
      Json.lookup? m.name given ≠ none ↔ m.name ∈ given.map Prod.fst := by
    rw [ne_eq, Json.lookup?_eq_none_iff, not_not]
  rw [decode_object_eq_ok_iff h hgiven]
  refine and_congr_left fun _ => ?_
  constructor
  · intro hadmits m hm hrequired
    exact hthere.mpr (hadmits.complete m hm hrequired)
  · intro hcomplete
    refine ⟨fun hclosed => ?_, fun m hm hrequired => hthere.mp (hcomplete m hm hrequired)⟩
    rw [hopen] at hclosed
    cases hclosed

theorem declared_cons_of_some {m : Member σ} {ms : List (Member σ)} {v : Json}
    (h : Json.lookup? m.name given = some v) :
    declared given (m :: ms) = (m, v) :: declared given ms := by
  rw [declared, List.filterMap_cons, h]
  rfl

theorem declared_cons_of_none {m : Member σ} {ms : List (Member σ)}
    (h : Json.lookup? m.name given = none) :
    declared given (m :: ms) = declared given ms := by
  rw [declared, List.filterMap_cons, h]
  rfl

/-- A record of one member is read from an array of one element. -/
theorem decode_array_single_iff {m : Member σ} (hmembers : r.members = [m])
    (hm : m.isPositional = true) {vs : List Json} :
    (r.decode (.array vs)).outcome = .ok t ↔
      ∃ x, vs = [x] ∧ (m.read x r.blank).outcome = .ok t := by
  change (r.ofElements vs).outcome = .ok t ↔ _
  rw [ofElements, hmembers]
  rcases vs with _ | ⟨x, _ | ⟨y, rest⟩⟩
  · simp [readElements, hm, Attempt.outcome_andThen_eq_ok]
  · simp [readElements, Attempt.outcome_andThen_eq_ok]
  · simp [readElements, Attempt.outcome_andThen_eq_ok]

end Record

/-! ## One member that must be there -/

/-- The values that have `value` under the name, or consist of it as an array. -/
inductive Sole (name : String) (value : Json) : Json → Prop
  | member {ms : List (String × Json)} (h : Json.lookup? name ms = some value) :
    Sole name value (.object ms)
  | element : Sole name value (.array [value])

theorem Sole.not_two {name : String} {value v w : Json} : ¬ Sole name value (.array [v, w]) :=
  nofun

namespace Record

variable {σ α : Type} {r : Record σ} {shape : Shape α} {set : α → σ → σ} {m : Member σ}

/-- An open record of one member, which must be there and is read by some shape. -/
structure IsSole (r : Record σ) (shape : Shape α) (set : α → σ → σ) (m : Member σ) : Prop where
  members : r.members = [m]
  isOpen : r.closed = false
  required : m.isRequired = true
  positional : m.isPositional = true
  sets : m.SetsBy shape.decode set

theorem IsSole.decode_object_iff (h : r.IsSole shape set m) {given : List (String × Json)}
    (hgiven : (given.map Prod.fst).Nodup) {t : σ} :
    (r.decode (.object given)).outcome = .ok t ↔
      ∃ x a, Json.lookup? m.name given = some x ∧ (shape.decode x).outcome = .ok a ∧
        set a r.blank = t := by
  rw [decode_open_eq_ok_iff (orderly_of_single h.members) h.isOpen hgiven, h.members,
    List.forall_mem_singleton]
  constructor
  · intro hread
    obtain ⟨hthere, hread⟩ := hread
    obtain ⟨x, hx⟩ := Option.ne_none_iff_exists'.mp (hthere h.required)
    rw [declared_cons_of_some hx] at hread
    obtain ⟨s, hs, hdone⟩ := readAll_cons_eq_ok_iff.mp hread
    cases hdone
    obtain ⟨a, ha, rfl⟩ := h.sets.read_eq_ok_iff.mp hs
    exact ⟨x, a, hx, ha, rfl⟩
  · intro hform
    obtain ⟨x, a, hx, ha, rfl⟩ := hform
    refine ⟨fun _ => by rw [hx]; exact nofun, ?_⟩
    rw [declared_cons_of_some hx]
    exact readAll_cons_eq_ok_iff.mpr ⟨_, h.sets.read_eq_ok_iff.mpr ⟨a, ha, rfl⟩, rfl⟩

/-- What is read has the member, whatever else an object has. -/
theorem IsSole.decode_iff (h : r.IsSole shape set m) {v : Json}
    (hv : (v.members.map Prod.fst).Nodup) {t : σ} :
    (r.decode v).outcome = .ok t ↔
      ∃ x a, Sole m.name x v ∧ (shape.decode x).outcome = .ok a ∧ set a r.blank = t := by
  cases v with
  | object given =>
    have hgiven : (given.map Prod.fst).Nodup := hv
    rw [h.decode_object_iff hgiven]
    constructor
    · intro hform
      obtain ⟨x, a, hx, ha⟩ := hform
      exact ⟨x, a, .member hx, ha⟩
    · intro hform
      obtain ⟨x, a, hsole, ha⟩ := hform
      cases hsole with
      | member hx => exact ⟨x, a, hx, ha⟩
  | array vs =>
    rw [decode_array_single_iff h.members h.positional]
    constructor
    · intro hread
      obtain ⟨x, rfl, hx⟩ := hread
      obtain ⟨a, ha⟩ := h.sets.read_eq_ok_iff.mp hx
      exact ⟨x, a, .element, ha⟩
    · intro hform
      obtain ⟨x, a, hsole, ha⟩ := hform
      cases hsole
      exact ⟨x, rfl, h.sets.read_eq_ok_iff.mpr ⟨a, ha⟩⟩
  | _ =>
    constructor
    · intro hread
      cases hread
    · intro hform
      obtain ⟨x, a, hsole, -⟩ := hform
      cases hsole

end Record

/-! ## An optional member beside it -/

/-- The values that have `value` under the name, and `other` under the other name if
there is such a member, or that consist of these two as an array. -/
inductive Beside (name otherName : String) (value : Json) : Option Json → Json → Prop
  | members {ms : List (String × Json)} {other : Option Json}
    (h : Json.lookup? name ms = some value) (hother : Json.lookup? otherName ms = other) :
    Beside name otherName value other (.object ms)
  | single : Beside name otherName value none (.array [value])
  | elements {other : Json} : Beside name otherName value (some other) (.array [value, other])

namespace Record

variable {σ α β : Type} {r : Record σ} {shape : Shape α} {shape' : Shape β} {set : α → σ → σ}
  {set' : Option β → σ → σ} {m n : Member σ}

/-- An open record of a member that must be there and one that may be. -/
structure IsBeside (r : Record σ) (shape : Shape α) (shape' : Shape β) (set : α → σ → σ)
    (set' : Option β → σ → σ) (m n : Member σ) : Prop where
  orderly : r.Orderly
  members : r.members = [m, n]
  isOpen : r.closed = false
  required : m.isRequired = true
  positional : m.isPositional = true
  optional : n.isPositional = false
  sets : m.SetsBy shape.decode set
  setsOther : n.SetsBy shape'.option.decode set'
  /-- An absent value is as good as none. -/
  blank : ∀ a, set' none (set a r.blank) = set a r.blank

/-- What is made of an optional value. -/
def optionalOutcome (shape : Shape β) : Option Json → Except Rejection (Option β)
  | some v => (shape.option.decode v).outcome
  | none => .ok none

theorem IsBeside.decode_object_iff (h : r.IsBeside shape shape' set set' m n)
    {given : List (String × Json)} (hgiven : (given.map Prod.fst).Nodup) {t : σ} :
    (r.decode (.object given)).outcome = .ok t ↔
      ∃ x a b, Json.lookup? m.name given = some x ∧ (shape.decode x).outcome = .ok a ∧
        optionalOutcome shape' (Json.lookup? n.name given) = .ok b ∧
          set' b (set a r.blank) = t := by
  have hoptional : n.isRequired = false := (Bool.or_eq_false_iff.mp h.optional).1
  rw [decode_open_eq_ok_iff h.orderly h.isOpen hgiven, h.members]
  constructor
  · intro hread
    obtain ⟨hthere, hread⟩ := hread
    obtain ⟨x, hx⟩ := Option.ne_none_iff_exists'.mp (hthere m (.head _) h.required)
    rw [declared_cons_of_some hx] at hread
    obtain ⟨s, hs, hread⟩ := readAll_cons_eq_ok_iff.mp hread
    obtain ⟨a, ha, rfl⟩ := h.sets.read_eq_ok_iff.mp hs
    refine ⟨x, a, ?_⟩
    cases hn : Json.lookup? n.name given with
    | none =>
      rw [declared_cons_of_none hn] at hread
      cases hread
      exact ⟨none, hx, ha, rfl, h.blank a⟩
    | some w =>
      rw [declared_cons_of_some hn] at hread
      obtain ⟨s', hs', hdone⟩ := readAll_cons_eq_ok_iff.mp hread
      cases hdone
      obtain ⟨b, hb, rfl⟩ := h.setsOther.read_eq_ok_iff.mp hs'
      exact ⟨b, hx, ha, hb, rfl⟩
  · intro hform
    obtain ⟨x, a, b, hx, ha, hb, rfl⟩ := hform
    refine ⟨?_, ?_⟩
    · rw [List.forall_mem_cons, List.forall_mem_singleton, hoptional]
      exact ⟨fun _ => by rw [hx]; exact nofun, nofun⟩
    · rw [declared_cons_of_some hx]
      refine readAll_cons_eq_ok_iff.mpr ⟨_, h.sets.read_eq_ok_iff.mpr ⟨a, ha, rfl⟩, ?_⟩
      cases hn : Json.lookup? n.name given with
      | none =>
        rw [hn] at hb
        cases hb
        rw [declared_cons_of_none hn, h.blank]
        rfl
      | some w =>
        rw [hn] at hb
        rw [declared_cons_of_some hn]
        exact readAll_cons_eq_ok_iff.mpr ⟨_, h.setsOther.read_eq_ok_iff.mpr ⟨b, hb, rfl⟩, rfl⟩

/-- What is read has the first member, and nothing of a wrong type for the second. -/
theorem IsBeside.decode_iff (h : r.IsBeside shape shape' set set' m n) {v : Json}
    (hv : (v.members.map Prod.fst).Nodup) {t : σ} :
    (r.decode v).outcome = .ok t ↔
      ∃ x o a b, Beside m.name n.name x o v ∧ (shape.decode x).outcome = .ok a ∧
        optionalOutcome shape' o = .ok b ∧ set' b (set a r.blank) = t := by
  cases v with
  | object given =>
    have hgiven : (given.map Prod.fst).Nodup := hv
    rw [h.decode_object_iff hgiven]
    constructor
    · intro hform
      obtain ⟨x, a, b, hx, ha, hb⟩ := hform
      exact ⟨x, _, a, b, .members hx rfl, ha, hb⟩
    · intro hform
      obtain ⟨x, o, a, b, hbeside, ha, hb⟩ := hform
      cases hbeside with
      | members hx ho => exact ⟨x, a, b, hx, ha, ho ▸ hb⟩
  | array vs =>
    rw [decode_array_pair_iff h.members h.positional h.optional]
    constructor
    · intro hread
      obtain ⟨x, s, hs, hrest⟩ := hread
      obtain ⟨a, ha, rfl⟩ := h.sets.read_eq_ok_iff.mp hs
      obtain ⟨rfl, rfl⟩ | ⟨w, rfl, hw⟩ := hrest
      · exact ⟨x, none, a, none, .single, ha, rfl, h.blank a⟩
      · obtain ⟨b, hb⟩ := h.setsOther.read_eq_ok_iff.mp hw
        exact ⟨x, some w, a, b, .elements, ha, hb⟩
    · intro hform
      obtain ⟨x, o, a, b, hbeside, ha, hb, rfl⟩ := hform
      refine ⟨x, set a r.blank, h.sets.read_eq_ok_iff.mpr ⟨a, ha, rfl⟩, ?_⟩
      cases hbeside with
      | single =>
        cases hb
        exact .inl ⟨rfl, (h.blank a).symm⟩
      | elements => exact .inr ⟨_, rfl, h.setsOther.read_eq_ok_iff.mpr ⟨b, hb, rfl⟩⟩
  | _ =>
    constructor
    · intro hread
      cases hread
    · intro hform
      obtain ⟨x, o, a, b, hbeside, -⟩ := hform
      cases hbeside

end Record

end Untagged
