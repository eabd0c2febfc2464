import Untagged.Proofs.Shape.Closed

/-!
# The first fault of a value

A record reads an object member by member, in document order, and stops at the first one
that is at fault: its name is not known, or its value cannot be read.  What is missing is
noticed only where no member is at fault (`Record.decode_object_eq_error_iff`).

Of a record with one member that must be there and one truth value that may be,
`PairFault` tells for every value the reason for which it is rejected.  It is the other
side of the grammar `Pair`: what is not read is rejected for this reason and for no other
(`Record.IsPair.decode_eq_error_iff`).
-/

namespace Untagged

/-- The fault of the first thing in a list that is at fault. -/
inductive FirstFault {α ε : Type} (Fault : α → ε → Prop) : List α → ε → Prop
  | head {a : α} {as : List α} {e : ε} (h : Fault a e) : FirstFault Fault (a :: as) e
  | behind {a : α} {as : List α} {e : ε} (ha : ∀ e, ¬ Fault a e) (h : FirstFault Fault as e) :
    FirstFault Fault (a :: as) e

namespace FirstFault

variable {α ε : Type} {Fault : α → ε → Prop} {a : α} {as : List α} {e : ε}

theorem cons_iff :
    FirstFault Fault (a :: as) e ↔
      Fault a e ∨ ((∀ e, ¬ Fault a e) ∧ FirstFault Fault as e) := by
  constructor
  · intro h
    cases h with
    | head h => exact .inl h
    | behind ha h => exact .inr ⟨ha, h⟩
  · intro h
    rcases h with h | ⟨ha, h⟩
    · exact .head h
    · exact .behind ha h

/-- There is a first fault where there is any. -/
theorem exists_iff : (∃ e, FirstFault Fault as e) ↔ ∃ a ∈ as, ∃ e, Fault a e := by
  induction as with
  | nil =>
    constructor
    · intro h
      obtain ⟨e, h⟩ := h
      cases h
    · intro h
      obtain ⟨a, h, -⟩ := h
      cases h
  | cons a as ih =>
    rw [List.exists_mem_cons_iff, ← ih]
    by_cases ha : ∃ e, Fault a e
    · obtain ⟨e, he⟩ := ha
      exact ⟨fun _ => .inl ⟨e, he⟩, fun _ => ⟨e, .head he⟩⟩
    · have hnone : ∀ e, ¬ Fault a e := fun e he => ha ⟨e, he⟩
      simp only [cons_iff, hnone, not_false_eq_true, implies_true, true_and, exists_false,
        false_or]

end FirstFault

namespace Member

variable {σ α : Type} {m : Member σ}

theorem SetsBy.read_eq_error_iff {decode : Json → Attempt Rejection α} {set : α → σ → σ}
    (h : m.SetsBy decode set) {v : Json} {s : σ} {e : Rejection} :
    (m.read v s).outcome = .error e ↔ (decode v).outcome = .error e := by
  rw [h v s]
  exact Attempt.outcome_map_eq_error

/-- A value is read, or rejected for what is wrong with it. -/
theorem SetsBy.read_cases {decode : Json → Attempt Rejection α} {set : α → σ → σ}
    (h : m.SetsBy decode set) {Wrong : Json → Prop} {reason : Json → Rejection}
    (hdecode : ∀ v e, (decode v).outcome = .error e ↔ Wrong v ∧ e = reason v) (v : Json) (s : σ) :
    (Wrong v ∧ (m.read v s).outcome = .error (reason v)) ∨
      (¬ Wrong v ∧ ∃ t, (m.read v s).outcome = .ok t) := by
  cases hread : (m.read v s).outcome with
  | ok t =>
    refine .inr ⟨fun hv => ?_, t, rfl⟩
    rw [h.read_eq_error_iff.mpr ((hdecode v _).mpr ⟨hv, rfl⟩)] at hread
    cases hread
  | error e =>
    obtain ⟨hv, rfl⟩ := (hdecode v e).mp (h.read_eq_error_iff.mp hread)
    exact .inl ⟨hv, rfl⟩

/-- What is wrong with a value does not hang on the draft that it is read into. -/
def Steady (m : Member σ) : Prop :=
  ∀ v s t e, (m.read v s).outcome = .error e ↔ (m.read v t).outcome = .error e

theorem SetsBy.steady {decode : Json → Attempt Rejection α} {set : α → σ → σ}
    (h : m.SetsBy decode set) : m.Steady :=
  fun _ _ _ _ => h.read_eq_error_iff.trans h.read_eq_error_iff.symm

end Member

namespace Record

variable {σ : Type} {r : Record σ} {given : List (String × Json)} {e : Rejection}

/-! ## Objects -/

/-- What is wrong with a member of an object: its value, where the record knows the name,
and the name, where it does not and is closed. -/
def Faulty (r : Record σ) (p : String × Json) (e : Rejection) : Prop :=
  match r.member? p.1 with
  | some m => (m.read p.2 r.blank).outcome = .error e
  | none => r.closed = true ∧ e = .unknownField p.1 r.names

theorem readMembers_eq_error_iff (hsteady : ∀ m ∈ r.members, m.Steady)
    (hgiven : (given.map Prod.fst).Nodup) {seen : List String} (hseen : ∀ p ∈ given, p.1 ∉ seen)
    {s : σ} :
    (r.readMembers seen given s).outcome = .error e ↔ FirstFault r.Faulty given e := by
  induction given generalizing seen s with
  | nil => exact ⟨nofun, nofun⟩
  | cons p given ih =>
    obtain ⟨name, v⟩ := p
    rw [List.map_cons, List.nodup_cons] at hgiven
    rw [List.forall_mem_cons] at hseen
    rw [readMembers, FirstFault.cons_iff]
    cases hm : r.member? name with
    | none =>
      have hfault (e : Rejection) :
          r.Faulty (name, v) e ↔ r.closed = true ∧ e = .unknownField name r.names := by
        rw [Faulty, hm]
      cases hclosed : r.closed with
      | true => simp [hfault, hclosed, eq_comm]
      | false => simp [hfault, hclosed, ih hgiven.2 hseen.2]
    | some m =>
      have hmem : m ∈ r.members := List.mem_of_find?_eq_some hm
      have hfault (e : Rejection) : r.Faulty (name, v) e ↔ (m.read v s).outcome = .error e := by
        rw [Faulty, hm]
        exact hsteady m hmem v r.blank s e
      have hseen' : ∀ p ∈ given, p.1 ∉ name :: seen := by
        intro p hp hmem
        rcases List.mem_cons.mp hmem with heq | hmem
        · exact hgiven.1 (List.mem_map.mpr ⟨p, hp, heq⟩)
        · exact hseen.2 p hp hmem
      simp only [if_neg hseen.1, hfault, Attempt.outcome_andThen_eq_error, ih hgiven.2 hseen']
      cases (m.read v s).outcome with
      | ok s' => simp
      | error e' => simp

/-- A record rejects an object for its first fault, and one without faults for the first
member that must be there and is not. -/
theorem decode_object_eq_error_iff (hsteady : ∀ m ∈ r.members, m.Steady)
    (hgiven : (given.map Prod.fst).Nodup) :
    (r.decode (.object given)).outcome = .error e ↔
      FirstFault r.Faulty given e ∨
        ((∀ p ∈ given, ∀ e, ¬ r.Faulty p e) ∧
          ∃ m, r.missing? given = some m ∧ e = .missingField m.name) := by
  change (r.ofMembers given).outcome = .error e ↔ _
  have hread {e : Rejection} :
      (r.readMembers [] given r.blank).outcome = .error e ↔ FirstFault r.Faulty given e :=
    readMembers_eq_error_iff hsteady hgiven fun _ _ => List.not_mem_nil
  rw [ofMembers, Attempt.outcome_andThen_eq_error, hread]
  refine or_congr_right ?_
  -- All members are read where none is at fault.
  have hall : (∃ t, (r.readMembers [] given r.blank).outcome = .ok t) ↔
      ∀ p ∈ given, ∀ e, ¬ r.Faulty p e := by
    have hnone : (¬ ∃ e, FirstFault r.Faulty given e) ↔ ¬ ∃ p ∈ given, ∃ e, r.Faulty p e :=
      not_congr FirstFault.exists_iff
    push Not at hnone
    rw [← hnone]
    simp only [← hread]
    cases (r.readMembers [] given r.blank).outcome <;> simp
  rw [← hall]
  cases hmissing : r.missing? given with
  | none => simp
  | some m => simp [eq_comm]

end Record

/-! ## Pairs -/

/-- What is wrong with a member of an object that is to have a value of some kind under
one name and perhaps a truth value under another. -/
inductive MemberFault (name flagName : String) (kind : Kind) (expected : Expected) :
    String × Json → Rejection → Prop
  | unknown {other : String} {x : Json} (hname : other ≠ name) (hflag : other ≠ flagName) :
    MemberFault name flagName kind expected (other, x) (.unknownField other [name, flagName])
  | value {x : Json} (h : x.kind ≠ kind) :
    MemberFault name flagName kind expected (name, x) (.invalidType (.ofJson x) expected)
  | flag {x : Json} (hboolean : x.kind ≠ .boolean) (hnull : x.kind ≠ .null) :
    MemberFault name flagName kind expected (flagName, x) (.invalidType (.ofJson x) .boolean)

/-- The reason for which a value is no pair of a value of some kind and perhaps a truth
value. -/
inductive PairFault (record name flagName : String) (kind : Kind) (expected : Expected) :
    Json → Rejection → Prop
  /-- The first member that is at fault, whatever else is wrong with the object. -/
  | member {ms : List (String × Json)} {e : Rejection}
    (h : FirstFault (MemberFault name flagName kind expected) ms e) :
    PairFault record name flagName kind expected (.object ms) e
  | missing {ms : List (String × Json)}
    (h : ∀ p ∈ ms, ∀ e, ¬ MemberFault name flagName kind expected p e)
    (hname : name ∉ ms.map Prod.fst) :
    PairFault record name flagName kind expected (.object ms) (.missingField name)
  | first {x : Json} {rest : List Json} (h : x.kind ≠ kind) :
    PairFault record name flagName kind expected (.array (x :: rest))
      (.invalidType (.ofJson x) expected)
  | second {x y : Json} {rest : List Json} (hx : x.kind = kind) (hboolean : y.kind ≠ .boolean)
    (hnull : y.kind ≠ .null) :
    PairFault record name flagName kind expected (.array (x :: y :: rest))
      (.invalidType (.ofJson y) .boolean)
  | nothing :
    PairFault record name flagName kind expected (.array []) (.tooFewElements 0 record 2)
  | excess {x y : Json} {rest : List Json} (hx : x.kind = kind)
    (hy : y.kind = .boolean ∨ y.kind = .null) (hrest : rest ≠ []) :
    PairFault record name flagName kind expected (.array (x :: y :: rest))
      (.tooManyElements (rest.length + 2))
  | other {v : Json} (hobject : v.kind ≠ .object) (harray : v.kind ≠ .array) :
    PairFault record name flagName kind expected v (.invalidType (.ofJson v) (.record record))

namespace PairFault

variable {record name flagName : String} {kind : Kind} {expected : Expected} {e : Rejection}

theorem array_nil_iff :
    PairFault record name flagName kind expected (.array []) e ↔
      e = .tooFewElements 0 record 2 := by
  constructor
  · intro h
    cases h with
    | nothing => rfl
    | other _ harray => exact absurd rfl harray
  · intro h
    exact h ▸ .nothing

theorem array_single_iff {x : Json} :
    PairFault record name flagName kind expected (.array [x]) e ↔
      x.kind ≠ kind ∧ e = .invalidType (.ofJson x) expected := by
  constructor
  · intro h
    cases h with
    | first hx => exact ⟨hx, rfl⟩
    | other _ harray => exact absurd rfl harray
  · intro h
    exact h.2 ▸ .first h.1

theorem array_cons_cons_iff {x y : Json} {rest : List Json} :
    PairFault record name flagName kind expected (.array (x :: y :: rest)) e ↔
      (x.kind ≠ kind ∧ e = .invalidType (.ofJson x) expected) ∨
      (¬ x.kind ≠ kind ∧
        (((y.kind ≠ .boolean ∧ y.kind ≠ .null) ∧ e = .invalidType (.ofJson y) .boolean) ∨
          (¬ (y.kind ≠ .boolean ∧ y.kind ≠ .null) ∧ rest ≠ [] ∧
            e = .tooManyElements (rest.length + 2)))) := by
  constructor
  · intro h
    cases h with
    | first hx => exact .inl ⟨hx, rfl⟩
    | second hx hboolean hnull => exact .inr ⟨not_not.mpr hx, .inl ⟨⟨hboolean, hnull⟩, rfl⟩⟩
    | excess hx hy hrest =>
      exact .inr ⟨not_not.mpr hx, .inr ⟨by simpa [imp_iff_not_or, or_comm] using hy, hrest, rfl⟩⟩
    | other _ harray => exact absurd rfl harray
  · intro h
    rcases h with ⟨hx, rfl⟩ | ⟨hx, ⟨⟨hboolean, hnull⟩, rfl⟩ | ⟨hy, hrest, rfl⟩⟩
    · exact .first hx
    · exact .second (not_not.mp hx) hboolean hnull
    · exact .excess (not_not.mp hx) (by tauto) hrest

theorem scalar_iff {v : Json} (hobject : v.kind ≠ .object) (harray : v.kind ≠ .array) :
    PairFault record name flagName kind expected v e ↔
      e = .invalidType (.ofJson v) (.record record) := by
  constructor
  · intro h
    cases h with
    | other => rfl
    | member => exact absurd rfl hobject
    | missing => exact absurd rfl hobject
    | _ => exact absurd rfl harray
  · intro h
    exact h ▸ .other hobject harray

end PairFault

namespace Shape

variable {α : Type} {v : Json} {e : Rejection}

/-- The shape rejects the values that are not of the kind, and calls it as given. -/
def ExpectsKind (shape : Shape α) (kind : Kind) (expected : Expected) : Prop :=
  ∀ v e, (shape.decode v).outcome = .error e ↔
    v.kind ≠ kind ∧ e = .invalidType (.ofJson v) expected

theorem string_expectsKind : Shape.string.ExpectsKind .string .string := by
  intro v e
  cases v with
  | string s => exact ⟨nofun, fun h => absurd rfl h.1⟩
  | _ => simp [Shape.string, mismatch, Json.kind, eq_comm]

theorem double_expectsKind : Shape.double.ExpectsKind .number .double := by
  intro v e
  cases v with
  | number n => exact ⟨nofun, fun h => absurd rfl h.1⟩
  | _ => simp [Shape.double, mismatch, Json.kind, eq_comm]

theorem boolean_expectsKind : Shape.boolean.ExpectsKind .boolean .boolean := by
  intro v e
  cases v with
  | boolean b => exact ⟨nofun, fun h => absurd rfl h.1⟩
  | _ => simp [Shape.boolean, mismatch, Json.kind, eq_comm]

/-- An optional value is rejected like one that is not optional, unless it is `null`. -/
theorem ExpectsKind.option_decode_eq_error_iff {shape : Shape α} {kind : Kind}
    {expected : Expected} (h : shape.ExpectsKind kind expected) :
    (shape.option.decode v).outcome = .error e ↔
      (v.kind ≠ kind ∧ v.kind ≠ .null) ∧ e = .invalidType (.ofJson v) expected := by
  by_cases hv : v = .null
  · subst hv
    exact ⟨nofun, fun h => absurd rfl h.1.2⟩
  · have hnull : v.kind ≠ .null := by
      cases v with
      | null => exact absurd rfl hv
      | _ => exact nofun
    rw [option_decode_of_ne_null hv, Attempt.outcome_map_eq_error, h v e, and_iff_left hnull]

end Shape

namespace Record

variable {σ α : Type} {r : Record σ} {shape : Shape α} {set : α → σ → σ}
  {setFlag : Option Bool → σ → σ} {m n : Member σ} {kind : Kind} {expected : Expected}
  {e : Rejection}

theorem IsPair.names_eq (h : r.IsPair shape set setFlag m n) : r.names = [m.name, n.name] := by
  rw [names, h.members]
  rfl

theorem IsPair.name_ne (h : r.IsPair shape set setFlag m n) : m.name ≠ n.name := by
  have hnames := h.orderly.nodup
  rw [h.names_eq] at hnames
  simpa using hnames

theorem IsPair.member?_eq (h : r.IsPair shape set setFlag m n) (name : String) :
    r.member? name = if m.name = name then some m else if n.name = name then some n else none := by
  rw [member?, h.members]
  by_cases hm : m.name = name
  · simp [hm]
  · by_cases hn : n.name = name <;> simp [hm, hn]

theorem IsPair.missing?_eq (h : r.IsPair shape set setFlag m n) (given : List (String × Json)) :
    r.missing? given = if m.name ∈ given.map Prod.fst then none else some m := by
  rw [missing?, h.members]
  by_cases hm : m.name ∈ given.map Prod.fst
  · simp [h.required, h.optional_required, hm]
  · simp [h.required, hm]

theorem IsPair.steady (h : r.IsPair shape set setFlag m n) : ∀ k ∈ r.members, k.Steady := by
  rw [h.members, List.forall_mem_cons, List.forall_mem_singleton]
  exact ⟨h.sets.steady, h.setsFlag.steady⟩

section

variable (h : r.IsPair shape set setFlag m n) (hkind : shape.ExpectsKind kind expected)

include h hkind

theorem IsPair.faulty_iff {p : String × Json} :
    r.Faulty p e ↔ MemberFault m.name n.name kind expected p e := by
  obtain ⟨name, x⟩ := p
  rw [Faulty, h.member?_eq, h.closed, h.names_eq]
  constructor
  · intro hfault
    by_cases hm : m.name = name
    · subst hm
      simp only [if_true, h.sets.read_eq_error_iff, hkind x e] at hfault
      obtain ⟨hx, rfl⟩ := hfault
      exact .value hx
    · by_cases hn : n.name = name
      · subst hn
        simp only [if_neg hm, if_true, h.setsFlag.read_eq_error_iff,
          Shape.boolean_expectsKind.option_decode_eq_error_iff] at hfault
        obtain ⟨⟨hboolean, hnull⟩, rfl⟩ := hfault
        exact .flag hboolean hnull
      · simp only [if_neg hm, if_neg hn, true_and] at hfault
        subst hfault
        exact .unknown (Ne.symm hm) (Ne.symm hn)
  · intro hfault
    cases hfault with
    | unknown hname hflag => simp [hname.symm, hflag.symm]
    | value hx =>
      simp only [if_true, h.sets.read_eq_error_iff, hkind x, and_true]
      exact hx
    | flag hboolean hnull =>
      simp only [if_neg h.name_ne, if_true, h.setsFlag.read_eq_error_iff,
        Shape.boolean_expectsKind.option_decode_eq_error_iff, and_true]
      exact ⟨hboolean, hnull⟩

theorem IsPair.decode_object_eq_error_iff {given : List (String × Json)}
    (hgiven : (given.map Prod.fst).Nodup) :
    (r.decode (.object given)).outcome = .error e ↔
      PairFault r.name m.name n.name kind expected (.object given) e := by
  have hfaulty : r.Faulty = MemberFault m.name n.name kind expected :=
    funext fun p => funext fun e => propext (h.faulty_iff hkind)
  rw [Record.decode_object_eq_error_iff h.steady hgiven, h.missing?_eq, hfaulty]
  constructor
  · intro hfault
    rcases hfault with hfirst | ⟨hsound, k, hk, rfl⟩
    · exact .member hfirst
    · by_cases hm : m.name ∈ given.map Prod.fst
      · rw [if_pos hm] at hk
        cases hk
      · rw [if_neg hm] at hk
        cases hk
        exact .missing hsound hm
  · intro hfault
    cases hfault with
    | member hfirst => exact .inl hfirst
    | missing hsound hm => exact .inr ⟨hsound, m, if_neg hm, rfl⟩
    | other hobject => exact absurd rfl hobject

theorem IsPair.decode_array_eq_error_iff {vs : List Json} :
    (r.decode (.array vs)).outcome = .error e ↔
      PairFault r.name m.name n.name kind expected (.array vs) e := by
  have hvalue := h.sets.read_cases hkind
  have hflag := h.setsFlag.read_cases fun v e =>
    Shape.boolean_expectsKind.option_decode_eq_error_iff (v := v) (e := e)
  change (r.ofElements vs).outcome = .error e ↔ _
  rw [ofElements, h.members]
  rcases vs with _ | ⟨x, _ | ⟨y, rest⟩⟩
  · rw [readElements, if_pos h.positional, h.members, PairFault.array_nil_iff]
    exact Attempt.error_eq_error_iff
  · rw [PairFault.array_single_iff, readElements, Attempt.outcome_andThen, Attempt.outcome_andThen]
    rcases hvalue x r.blank with ⟨hx, hread⟩ | ⟨hx, s, hread⟩
    · rw [hread, and_iff_right hx]
      exact Attempt.error_eq_error_iff
    · rw [hread, iff_false_right fun hfault => hx hfault.1]
      simp [Except.bind, readElements, h.optional]
  · rw [PairFault.array_cons_cons_iff, readElements, Attempt.outcome_andThen,
      Attempt.outcome_andThen]
    rcases hvalue x r.blank with ⟨hx, hread⟩ | ⟨hx, s, hread⟩
    · rw [hread, or_iff_left fun hfault => hfault.1 hx, and_iff_right hx]
      exact Attempt.error_eq_error_iff
    · rw [hread, or_iff_right fun hfault => hx hfault.1, and_iff_right hx]
      simp only [Except.bind, readElements, Attempt.outcome_andThen]
      rcases hflag y s with ⟨hy, hread'⟩ | ⟨hy, t, hread'⟩
      · rw [hread', or_iff_left fun hfault => hfault.1 hy, and_iff_right hy]
        exact Attempt.error_eq_error_iff
      · rw [hread', or_iff_right fun hfault => hy hfault.1, and_iff_right hy]
        cases rest with
        | nil => simp
        | cons z rest => simp [eq_comm]

/-- Whatever is no pair is rejected for the reason that `PairFault` gives, and nothing else
is rejected. -/
theorem IsPair.decode_eq_error_iff {v : Json} (hv : (v.members.map Prod.fst).Nodup) :
    (r.decode v).outcome = .error e ↔
      PairFault r.name m.name n.name kind expected v e := by
  cases v with
  | object given => exact h.decode_object_eq_error_iff hkind hv
  | array vs => exact h.decode_array_eq_error_iff hkind
  | _ =>
    rw [PairFault.scalar_iff (by simp [Json.kind]) (by simp [Json.kind])]
    exact Attempt.error_eq_error_iff

end

end Record

end Untagged
