import Untagged.Union.Codec

/-!
# Trial decoding

What a trial decides.  A candidate accepts a document or rejects it, and
`FirstAccepts` says which candidate a document falls to: the one at some place,
with every candidate before it rejecting the document.  `firstMatch` finds that
candidate where there is one (`firstMatch_eq_some_iff`), finds none exactly where
all reject (`firstMatch_eq_none_iff`), and reads nothing of the candidates behind
it (`firstMatch_take_append`).

`decode` is the trial behind a gate on the kind of the document.  The hook that is
shown the properties changes neither the outcome nor the log, so everything about
decoding is stated for `decode` (`decodeInspecting_snd`).
-/

namespace Untagged

namespace Kind

theorem isContainer_eq_true_iff {k : Kind} : k.isContainer = true ↔ k = .object ∨ k = .array := by
  cases k <;> simp [isContainer]

theorem isContainer_eq_false_iff {k : Kind} :
    k.isContainer = false ↔ k = .null ∨ k = .boolean ∨ k = .number ∨ k = .string := by
  cases k <;> simp [isContainer]

end Kind

namespace Candidate

variable {α : Type}

/-- The candidate makes `a` of the document. -/
def Accepts (c : Candidate α) (v : Json) (a : α) : Prop := (c.decode v).outcome = .ok a

/-- The candidate makes nothing of the document. -/
def Rejects (c : Candidate α) (v : Json) : Prop := ∃ r, (c.decode v).outcome = .error r

theorem Accepts.not_rejects {c : Candidate α} {v : Json} {a : α} (h : c.Accepts v a) :
    ¬ c.Rejects v := by
  rintro ⟨r, hr⟩
  rw [Accepts, hr] at h
  cases h

theorem Accepts.unique {c : Candidate α} {v : Json} {a b : α} (ha : c.Accepts v a)
    (hb : c.Accepts v b) : a = b := by
  rw [Accepts, ha] at hb
  exact Except.ok.inj hb

theorem rejects_or_accepts (c : Candidate α) (v : Json) : c.Rejects v ∨ ∃ a, c.Accepts v a := by
  cases h : (c.decode v).outcome with
  | ok a => exact .inr ⟨a, h⟩
  | error r => exact .inl ⟨r, h⟩

theorem rejects_iff {c : Candidate α} {v : Json} : c.Rejects v ↔ ∀ a, ¬ c.Accepts v a := by
  constructor
  · intro h a ha
    exact ha.not_rejects h
  · intro h
    rcases c.rejects_or_accepts v with hr | ⟨a, ha⟩
    · exact hr
    · exact absurd ha (h a)

variable {β : Type} {name : String} {shape : Shape β} {wrap : β → α}

theorem ofShape_accepts_iff {v : Json} {a : α} :
    (ofShape name shape wrap).Accepts v a ↔ ∃ b, (shape.decode v).outcome = .ok b ∧ wrap b = a :=
  Attempt.outcome_map_eq_ok

theorem ofShape_rejects_iff {v : Json} :
    (ofShape name shape wrap).Rejects v ↔ ∃ r, (shape.decode v).outcome = .error r := by
  show (∃ r, (shape.decode v).outcome.map wrap = .error r) ↔ _
  cases (shape.decode v).outcome with
  | ok b => simp [Except.map]
  | error r => simp [Except.map]

end Candidate

/-- A document falls to the candidate at place `k`, which makes `a` of it: every
candidate before that place rejects the document. -/
structure FirstAccepts {α : Type} (cs : List (Candidate α)) (v : Json) (k : Nat) (a : α) :
    Prop where
  accepts : ∃ c, cs[k]? = some c ∧ c.Accepts v a
  rejects : ∀ c ∈ cs.take k, c.Rejects v

namespace FirstAccepts

variable {α : Type} {c : Candidate α} {cs : List (Candidate α)} {v : Json} {k : Nat} {a : α}

theorem head (h : c.Accepts v a) : FirstAccepts (c :: cs) v 0 a where
  accepts := ⟨c, rfl, h⟩
  rejects := by simp

theorem behind (hc : c.Rejects v) (h : FirstAccepts cs v k a) :
    FirstAccepts (c :: cs) v (k + 1) a where
  accepts := by simpa using h.accepts
  rejects := by
    rw [List.take_succ_cons, List.forall_mem_cons]
    exact ⟨hc, h.rejects⟩

theorem of_cons_zero (h : FirstAccepts (c :: cs) v 0 a) : c.Accepts v a := by
  obtain ⟨d, hd, ha⟩ := h.accepts
  cases hd
  exact ha

theorem of_cons_succ (h : FirstAccepts (c :: cs) v (k + 1) a) :
    c.Rejects v ∧ FirstAccepts cs v k a := by
  have hr := h.rejects
  rw [List.take_succ_cons, List.forall_mem_cons] at hr
  exact ⟨hr.1, by simpa using h.accepts, hr.2⟩

theorem lt_length (h : FirstAccepts cs v k a) : k < cs.length := by
  obtain ⟨c, hc, -⟩ := h.accepts
  exact (List.getElem?_eq_some_iff.mp hc).1

/-- A document falls to one candidate at most, which makes one thing of it. -/
theorem unique {j : Nat} {b : α} (hk : FirstAccepts cs v k a) (hj : FirstAccepts cs v j b) :
    j = k ∧ b = a := by
  -- Both counts walk down the same list: they end together, or a candidate would
  -- both accept and reject.
  induction cs generalizing j k with
  | nil => exact absurd hk.lt_length (Nat.not_lt_zero k)
  | cons c cs ih =>
    cases k with
    | zero =>
      cases j with
      | zero => exact ⟨rfl, hj.of_cons_zero.unique hk.of_cons_zero⟩
      | succ j => exact absurd hj.of_cons_succ.1 hk.of_cons_zero.not_rejects
    | succ k =>
      cases j with
      | zero => exact absurd hk.of_cons_succ.1 hj.of_cons_zero.not_rejects
      | succ j =>
        obtain ⟨hjk, hba⟩ := ih hk.of_cons_succ.2 hj.of_cons_succ.2
        exact ⟨by rw [hjk], hba⟩

/-- A document that a candidate accepts falls to it or to an earlier one. -/
theorem exists_of_accepts {cs : List (Candidate α)} {v : Json} {k : Nat} {c : Candidate α}
    {a : α} (hc : cs[k]? = some c) (ha : c.Accepts v a) :
    ∃ j b, FirstAccepts cs v j b ∧ j ≤ k ∧ (j = k → b = a) := by
  induction cs generalizing k with
  | nil => cases hc
  | cons d cs ih =>
    cases k with
    | zero =>
      cases hc
      exact ⟨0, a, .head ha, Nat.le_refl 0, fun _ => rfl⟩
    | succ k =>
      rcases d.rejects_or_accepts v with hr | ⟨b, hb⟩
      · obtain ⟨j, b, hj, hle, heq⟩ := ih hc
        exact ⟨j + 1, b, hj.behind hr, Nat.succ_le_succ hle, fun h => heq (Nat.succ.inj h)⟩
      · exact ⟨0, b, .head hb, Nat.zero_le _, fun h => by cases h⟩

theorem not_nil : ¬ ∃ k, FirstAccepts [] v k a := by
  intro h
  obtain ⟨k, hk⟩ := h
  exact absurd hk.lt_length (Nat.not_lt_zero k)

/-- A document falls to the first candidate, or to one behind it where the first
rejects the document. -/
theorem exists_cons_iff :
    (∃ k, FirstAccepts (c :: cs) v k a) ↔
      c.Accepts v a ∨ (c.Rejects v ∧ ∃ k, FirstAccepts cs v k a) := by
  constructor
  · intro h
    obtain ⟨k, hk⟩ := h
    cases k with
    | zero => exact .inl hk.of_cons_zero
    | succ k => exact .inr ⟨hk.of_cons_succ.1, k, hk.of_cons_succ.2⟩
  · intro h
    rcases h with ha | ⟨hr, k, hk⟩
    · exact ⟨0, .head ha⟩
    · exact ⟨k + 1, hk.behind hr⟩

/-- It falls to the candidate itself exactly when all earlier ones reject it. -/
theorem eq_iff_rejects {cs : List (Candidate α)} {v : Json} {j k : Nat} {b : α}
    (h : FirstAccepts cs v j b) (hle : j ≤ k) :
    j = k ↔ ∀ c ∈ cs.take k, c.Rejects v := by
  constructor
  · intro hjk
    rw [← hjk]
    exact h.rejects
  · intro hr
    by_cases hlt : j < k
    · obtain ⟨c, hc, ha⟩ := h.accepts
      have hmem : c ∈ cs.take k := by
        rw [List.mem_take_iff_getElem]
        obtain ⟨hj, hcj⟩ := List.getElem?_eq_some_iff.mp hc
        exact ⟨j, by omega, hcj⟩
      exact absurd (hr c hmem) ha.not_rejects
    · omega

end FirstAccepts

namespace Union

variable {α : Type}

/-! ## The candidates in turn -/

theorem firstMatch_cons_of_accepts {c : Candidate α} {v : Json} {a : α} (h : c.Accepts v a)
    (name : String) (cs : List (Candidate α)) :
    firstMatch name v (c :: cs) = ((c.decode v).log ++ [.matched name c.name], some a) := by
  rw [Candidate.Accepts] at h
  simp only [firstMatch, h]

theorem firstMatch_cons_of_rejects {c : Candidate α} {v : Json} {r : Rejection}
    (h : (c.decode v).outcome = .error r) (name : String) (cs : List (Candidate α)) :
    firstMatch name v (c :: cs) =
      ((c.decode v).log ++ .rejected name c.name r :: (firstMatch name v cs).1,
        (firstMatch name v cs).2) := by
  simp only [firstMatch, h]

theorem firstMatch_eq_none_iff {name : String} {v : Json} {cs : List (Candidate α)} :
    (firstMatch name v cs).2 = none ↔ ∀ c ∈ cs, c.Rejects v := by
  induction cs with
  | nil => simp [firstMatch]
  | cons c cs ih =>
    rw [List.forall_mem_cons]
    rcases c.rejects_or_accepts v with ⟨r, hr⟩ | ⟨a, ha⟩
    · rw [firstMatch_cons_of_rejects hr, ih]
      exact ⟨fun h => ⟨⟨r, hr⟩, h⟩, fun h => h.2⟩
    · rw [firstMatch_cons_of_accepts ha]
      simp [ha.not_rejects]

theorem firstMatch_eq_some_iff {name : String} {v : Json} {cs : List (Candidate α)} {a : α} :
    (firstMatch name v cs).2 = some a ↔ ∃ k, FirstAccepts cs v k a := by
  induction cs with
  | nil =>
    refine ⟨fun h => ?_, fun ⟨k, h⟩ => absurd h.lt_length (Nat.not_lt_zero k)⟩
    simp [firstMatch] at h
  | cons c cs ih =>
    rcases c.rejects_or_accepts v with ⟨r, hr⟩ | ⟨b, hb⟩
    · rw [firstMatch_cons_of_rejects hr, ih]
      refine ⟨fun ⟨k, h⟩ => ⟨k + 1, h.behind ⟨r, hr⟩⟩, fun ⟨k, h⟩ => ?_⟩
      cases k with
      | zero => exact absurd ⟨r, hr⟩ h.of_cons_zero.not_rejects
      | succ k => exact ⟨k, h.of_cons_succ.2⟩
    · rw [firstMatch_cons_of_accepts hb, Option.some_inj]
      refine ⟨fun h => ⟨0, h ▸ FirstAccepts.head hb⟩, fun ⟨k, h⟩ => ?_⟩
      exact ((FirstAccepts.head hb).unique h).2.symm

/-- The candidates behind the one that accepts are not looked at: with others in
their place the trial finds and tells the same. -/
theorem firstMatch_take_append {cs : List (Candidate α)} {v : Json} {k : Nat} {a : α}
    (h : FirstAccepts cs v k a) (name : String) (later : List (Candidate α)) :
    firstMatch name v (cs.take (k + 1) ++ later) = firstMatch name v cs := by
  induction cs generalizing k with
  | nil => exact absurd h.lt_length (Nat.not_lt_zero k)
  | cons c cs ih =>
    cases k with
    | zero =>
      simp only [Nat.zero_add, List.take_succ_cons, List.take_zero, List.singleton_append]
      rw [firstMatch_cons_of_accepts h.of_cons_zero, firstMatch_cons_of_accepts h.of_cons_zero]
    | succ k =>
      obtain ⟨⟨r, hr⟩, htail⟩ := h.of_cons_succ
      rw [List.take_succ_cons, List.cons_append, firstMatch_cons_of_rejects hr,
        firstMatch_cons_of_rejects hr, ih htail]

/-! ## The scan -/

/-- What a scan tells does not hang on the hook. -/
theorem log_scanMembers {σ : Type} (inspect : String → Json → σ → σ)
    (ms : List (String × Json)) (s : σ) :
    (scanMembers inspect ms s).log = ms.map fun m => .scanning m.1 m.2 := by
  induction ms generalizing s with
  | nil => rfl
  | cons m ms ih =>
    obtain ⟨name, v⟩ := m
    simp only [scanMembers, List.map_cons, ih]

/-- The hook that is shown the properties has no say in the decoding. -/
theorem decodeInspecting_snd {σ : Type} (u : Union α) (inspect : String → Json → σ → σ)
    (v : Json) (s : σ) : (u.decodeInspecting inspect v s).2 = u.decode v := by
  unfold decode decodeInspecting
  by_cases hv : v.kind.isContainer = true
  · simp only [hv, if_true, scanDocument, log_scanMembers]
  · simp only [hv, if_false, Bool.false_eq_true]

/-! ## Decoding a value -/

theorem decode_of_scalar {v : Json} (h : v.kind.isContainer = false) (u : Union α) :
    u.decode v = .fail (.malformed u.name (.kind v.kind)) := by
  simp [decode, decodeInspecting, h]

theorem outcome_decode_of_container {v : Json} (h : v.kind.isContainer = true) (u : Union α) :
    (u.decode v).outcome =
      match (firstMatch u.name v u.candidates).2 with
      | some a => .ok (.holding a)
      | none => .error (.noMatch u.name u.names) := by
  simp only [decode, decodeInspecting, h, if_true, Attempt.outcome_telling]
  cases (firstMatch u.name v u.candidates).2 <;> rfl

/-- A value decodes exactly when it may be the body of a union and falls to some
candidate. -/
theorem decode_eq_ok_iff {u : Union α} {v : Json} {x : OneOf α} :
    (u.decode v).outcome = .ok x ↔
      v.kind.isContainer = true ∧ ∃ k a, FirstAccepts u.candidates v k a ∧ x = .holding a := by
  by_cases hv : v.kind.isContainer = true
  · rw [outcome_decode_of_container hv]
    cases hm : (firstMatch u.name v u.candidates).2 with
    | none =>
      refine ⟨nofun, fun ⟨_, k, a, h, _⟩ => ?_⟩
      rw [firstMatch_eq_some_iff.mpr ⟨k, h⟩] at hm
      cases hm
    | some a =>
      obtain ⟨k, hk⟩ := firstMatch_eq_some_iff.mp hm
      refine ⟨fun h => ⟨hv, k, a, hk, (Except.ok.inj h).symm⟩, fun ⟨_, j, b, h, hx⟩ => ?_⟩
      rw [hx, (hk.unique h).2]
  · rw [decode_of_scalar (Bool.eq_false_iff.mpr hv)]
    exact ⟨nofun, fun h => absurd h.1 hv⟩

/-- A document becomes a variant exactly when it falls to a candidate as that
variant. -/
theorem decode_eq_holding_iff {u : Union α} {v : Json} {a : α} :
    (u.decode v).outcome = .ok (.holding a) ↔
      v.kind.isContainer = true ∧ ∃ k, FirstAccepts u.candidates v k a := by
  rw [decode_eq_ok_iff]
  refine and_congr_right fun _ => ⟨fun h => ?_, fun h => ?_⟩
  · obtain ⟨k, b, hk, heq⟩ := h
    cases heq
    exact ⟨k, hk⟩
  · obtain ⟨k, hk⟩ := h
    exact ⟨k, a, hk, rfl⟩

/-- The only candidate makes the variant. -/
theorem decode_one_iff {u : Union α} {c : Candidate α} (hu : u.candidates = [c]) {v : Json}
    {a : α} :
    (u.decode v).outcome = .ok (.holding a) ↔ v.kind.isContainer = true ∧ c.Accepts v a := by
  rw [decode_eq_holding_iff, hu, FirstAccepts.exists_cons_iff]
  simp only [FirstAccepts.not_nil, and_false, or_false]

/-- A document becomes a variant of two candidates by the first, or by the second where
the first rejects it. -/
theorem decode_two_iff {u : Union α} {c d : Candidate α} (hu : u.candidates = [c, d]) {v : Json}
    {a : α} :
    (u.decode v).outcome = .ok (.holding a) ↔
      v.kind.isContainer = true ∧ (c.Accepts v a ∨ (c.Rejects v ∧ d.Accepts v a)) := by
  rw [decode_eq_holding_iff, hu, FirstAccepts.exists_cons_iff, FirstAccepts.exists_cons_iff]
  simp only [FirstAccepts.not_nil, and_false, or_false]

theorem decode_of_firstAccepts {u : Union α} {v : Json} {k : Nat} {a : α}
    (hv : v.kind.isContainer = true) (h : FirstAccepts u.candidates v k a) :
    (u.decode v).outcome = .ok (.holding a) :=
  decode_eq_ok_iff.mpr ⟨hv, k, a, h, rfl⟩

theorem decode_eq_error_iff {u : Union α} {v : Json} {e : DecodeError} :
    (u.decode v).outcome = .error e ↔
      (v.kind.isContainer = false ∧ e = .malformed u.name (.kind v.kind)) ∨
      (v.kind.isContainer = true ∧ (∀ c ∈ u.candidates, c.Rejects v) ∧
        e = .noMatch u.name u.names) := by
  by_cases hv : v.kind.isContainer = true
  · rw [outcome_decode_of_container hv]
    cases hm : (firstMatch u.name v u.candidates).2 with
    | none =>
      have hr := firstMatch_eq_none_iff.mp hm
      simp only [hv, Except.error.injEq, Bool.true_eq_false, false_and, true_and, false_or]
      exact ⟨fun h => ⟨hr, h.symm⟩, fun h => h.2.symm⟩
    | some a =>
      refine ⟨nofun, fun h => ?_⟩
      rcases h with ⟨h, -⟩ | ⟨-, h, -⟩
      · rw [hv] at h
        cases h
      · rw [firstMatch_eq_none_iff.mpr h] at hm
        cases hm
  · have hf := Bool.eq_false_iff.mpr hv
    rw [decode_of_scalar hf]
    simp only [Attempt.outcome_fail, Except.error.injEq, hf, Bool.false_eq_true, true_and,
      false_and, or_false]
    exact eq_comm

/-- Documents of one kind that every candidate reads alike are decoded alike. -/
theorem outcome_decode_congr {u : Union α} {v w : Json} (hkind : v.kind = w.kind)
    (h : ∀ c ∈ u.candidates, (c.decode v).outcome = (c.decode w).outcome) :
    (u.decode v).outcome = (u.decode w).outcome := by
  have hfound : (firstMatch u.name v u.candidates).2 = (firstMatch u.name w u.candidates).2 := by
    generalize u.candidates = cs at h
    induction cs with
    | nil => rfl
    | cons c cs ih =>
      rw [List.forall_mem_cons] at h
      rcases c.rejects_or_accepts v with ⟨r, hr⟩ | ⟨a, ha⟩
      · rw [firstMatch_cons_of_rejects hr, firstMatch_cons_of_rejects (h.1 ▸ hr)]
        exact ih h.2
      · have hw : c.Accepts w a := h.1.symm.trans ha
        rw [firstMatch_cons_of_accepts ha, firstMatch_cons_of_accepts hw]
  by_cases hv : v.kind.isContainer = true
  · rw [outcome_decode_of_container hv, outcome_decode_of_container (hkind ▸ hv), hfound]
  · have hv' := Bool.eq_false_iff.mpr hv
    rw [decode_of_scalar hv', decode_of_scalar (hkind ▸ hv'), hkind]

theorem decode_of_rejects {u : Union α} {v : Json} (hv : v.kind.isContainer = true)
    (h : ∀ c ∈ u.candidates, c.Rejects v) :
    (u.decode v).outcome = .error (.noMatch u.name u.names) :=
  decode_eq_error_iff.mpr (.inr ⟨hv, h, rfl⟩)

/-- A value that may be the body of a union matches no variant exactly when it is
decoded as none. -/
theorem decode_eq_noMatch_iff {u : Union α} {v : Json} :
    (u.decode v).outcome = .error (.noMatch u.name u.names) ↔
      v.kind.isContainer = true ∧ ∀ a, (u.decode v).outcome ≠ .ok (.holding a) := by
  constructor
  · intro h
    rcases decode_eq_error_iff.mp h with ⟨-, he⟩ | ⟨hv, -, -⟩
    · cases he
    · refine ⟨hv, fun a ha => ?_⟩
      rw [h] at ha
      cases ha
  · intro h
    obtain ⟨hv, hnone⟩ := h
    cases ho : (u.decode v).outcome with
    | ok x =>
      obtain ⟨-, k, a, -, rfl⟩ := decode_eq_ok_iff.mp ho
      exact absurd ho (hnone a)
    | error e =>
      rcases decode_eq_error_iff.mp ho with ⟨hf, -⟩ | ⟨-, -, rfl⟩
      · rw [hv] at hf
        cases hf
      · rfl

/-- A value is malformed exactly when it is a scalar. -/
theorem decode_eq_malformed_iff {u : Union α} {v : Json} :
    (u.decode v).outcome = .error (.malformed u.name (.kind v.kind)) ↔
      v.kind.isContainer = false := by
  rw [decode_eq_error_iff]
  constructor
  · intro h
    rcases h with ⟨hf, -⟩ | ⟨-, -, he⟩
    · exact hf
    · cases he
  · intro hf
    exact .inl ⟨hf, rfl⟩

/-- A document that falls to some candidate is decoded alike, whatever stands behind
that candidate. -/
theorem decode_take_append {u : Union α} {v : Json} {k : Nat} {a : α}
    (h : FirstAccepts u.candidates v k a) (later : List (Candidate α)) :
    ({ u with candidates := u.candidates.take (k + 1) ++ later } : Union α).decode v =
      u.decode v := by
  by_cases hv : v.kind.isContainer = true
  · have hfound : (firstMatch u.name v u.candidates).2 = some a :=
      firstMatch_eq_some_iff.mpr ⟨k, h⟩
    simp only [decode, decodeInspecting, hv, if_true, firstMatch_take_append h, hfound]
  · have hf := Bool.eq_false_iff.mpr hv
    rw [decode_of_scalar hf, decode_of_scalar hf]

/-! ## What decoding never returns -/

/-- An outcome is settled when it is neither the empty value nor a failed
validation. -/
def Settled (x : Except DecodeError (OneOf α)) : Prop :=
  x ≠ .ok .empty ∧ ∀ name findings, x ≠ .error (.invalid name findings)

theorem settled_decode (u : Union α) (v : Json) : Settled (u.decode v).outcome := by
  refine ⟨fun h => ?_, fun name findings h => ?_⟩
  · obtain ⟨-, k, a, -, hx⟩ := decode_eq_ok_iff.mp h
    cases hx
  · rcases decode_eq_error_iff.mp h with ⟨-, he⟩ | ⟨-, -, he⟩ <;> cases he

theorem settled_decodeRead (u : Union α) (read : Except Json.Error Json) :
    Settled (u.decodeRead read).outcome := by
  cases read with
  | ok v => exact settled_decode u v
  | error e => exact ⟨nofun, nofun⟩

end Union

end Untagged
