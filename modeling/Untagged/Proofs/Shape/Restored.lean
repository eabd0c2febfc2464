import Untagged.Shape.Record

/-!
# Values that are restored

A shape restores a value when it makes that value of the JSON value that it writes
for it.  Strings, booleans and 64-bit integers are always restored; a binary64
number is restored exactly when it is finite, because it is written as `null`
otherwise.

A record is restored member by member.  `Replays s ms t` says that reading what `s`
writes for the members `ms` leads the draft `t` to `s`; there is one way to extend
such a replay for each kind of member.  What makes a record reject an object is
stated for objects of any members: one member that spoils it, wherever it stands, or
a required one that is not there.
-/

namespace Untagged

namespace Shape

variable {α : Type}

/-- The shape reads `a` back from what it writes for it. -/
def Restores (shape : Shape α) (a : α) : Prop :=
  (shape.decode (shape.encode a).toJson).outcome = .ok a

/-! ## Scalars -/

theorem string_restores (s : String) : Shape.string.Restores s := rfl

theorem boolean_restores (b : Bool) : Shape.boolean.Restores b := rfl

theorem int64?_toInt (i : Int64) : int64? i.toInt = some i := by
  have hlower := i.le_toInt
  have hupper := i.toInt_lt
  rw [int64?, if_pos ⟨by omega, by omega⟩, Int64.ofInt_toInt]

theorem int64_restores (i : Int64) : Shape.int64.Restores i := by
  show (decodeInteger .int64 int64? (.number (.integer (.ofInt64 i)))).outcome = _
  simp only [decodeInteger, Integer.ofInt64, int64?_toInt, Attempt.outcome_succeed]

theorem double_restores {x : Double} (h : x.isFinite = true) : Shape.double.Restores x := by
  show (Shape.double.decode (Datum.floatToJson x)).outcome = _
  rw [Datum.floatToJson_of_isFinite h]
  rfl

/-! ## Lists and optional values -/

theorem decodeItems_restores {item : Shape α} {as : List α} (h : ∀ a ∈ as, item.Restores a) :
    (decodeItems item.decode (Datum.itemsToJson (as.map item.encode))).outcome = .ok as := by
  induction as with
  | nil => rfl
  | cons a as ih =>
    rw [List.forall_mem_cons] at h
    rw [List.map_cons, Datum.itemsToJson, decodeItems, Attempt.outcome_andThen_of_ok h.1,
      Attempt.outcome_map, ih h.2]
    rfl

theorem list_restores {item : Shape α} {as : List α} (h : ∀ a ∈ as, item.Restores a) :
    (Shape.list item).Restores as :=
  decodeItems_restores h

theorem option_decode_of_ne_null {inner : Shape α} {v : Json} (h : v ≠ .null) :
    inner.option.decode v = (inner.decode v).map some := by
  cases v with
  | null => exact absurd rfl h
  | _ => rfl

/-- An optional value is restored, unless the value that is there is written as
`null`. -/
theorem option_restores {inner : Shape α} {o : Option α} (h : ∀ a, o = some a →
    inner.Restores a ∧ (inner.encode a).toJson ≠ .null) : inner.option.Restores o := by
  cases o with
  | none => rfl
  | some a =>
    obtain ⟨ha, hnull⟩ := h a rfl
    show (inner.option.decode (inner.encode a).toJson).outcome = _
    rw [option_decode_of_ne_null hnull, Attempt.outcome_map, ha]
    rfl

end Shape

namespace Record

variable {σ α : Type} {r : Record σ} {s t : σ} {ms : List (Member σ)}

/-! ## Reading back member by member -/

/-- Reading what `s` writes for the members leads from the draft to `s`. -/
inductive Replays (s : σ) : List (Member σ) → σ → Prop
  | done : Replays s [] s
  | written {m : Member σ} {ms : List (Member σ)} {d : Datum} {t t' : σ}
      (hw : m.write s = some d) (hr : (m.read d.toJson t).outcome = .ok t')
      (h : Replays s ms t') : Replays s (m :: ms) t
  | absent {m : Member σ} {ms : List (Member σ)} {t : σ} (hw : m.write s = none)
      (hm : m.isRequired = false) (h : Replays s ms t) : Replays s (m :: ms) t

namespace Replays

variable {name : String} {shape : Shape α}

theorem required {get : σ → α} {set : α → σ → σ} (hs : shape.Restores (get s))
    (h : Replays s ms (set (get s) t)) :
    Replays s (.required name shape get set :: ms) t := by
  refine .written rfl ?_ h
  show ((shape.decode (shape.encode (get s)).toJson).map _).outcome = _
  rw [Attempt.outcome_map, hs]
  rfl

theorem omitted {get : σ → Option α} {set : Option α → σ → σ}
    (hs : ∀ a, get s = some a → shape.Restores a ∧ (shape.encode a).toJson ≠ .null)
    (hblank : set none t = t) (h : Replays s ms (set (get s) t)) :
    Replays s (.omitted name shape get set :: ms) t := by
  cases ha : get s with
  | none =>
    rw [ha, hblank] at h
    refine .absent ?_ rfl h
    show (get s).map shape.encode = none
    rw [ha]
    rfl
  | some a =>
    have hrestored : shape.option.Restores (get s) := Shape.option_restores hs
    rw [ha] at h hrestored
    have hdecode : (shape.option.decode (shape.encode a).toJson).outcome = .ok (some a) := hrestored
    refine .written (d := shape.encode a) ?_ ?_ h
    · show (get s).map shape.encode = _
      rw [ha]
      rfl
    · show ((shape.option.decode (shape.encode a).toJson).map _).outcome = _
      rw [Attempt.outcome_map, hdecode]
      rfl

theorem defaulted {get : σ → Option α} {set : Option α → σ → σ}
    (hs : ∀ a, get s = some a → shape.Restores a ∧ (shape.encode a).toJson ≠ .null)
    (h : Replays s ms (set (get s) t)) :
    Replays s (.defaulted name shape get set :: ms) t := by
  have hrestored : shape.option.Restores (get s) := Shape.option_restores hs
  refine .written rfl ?_ h
  show ((shape.option.decode (shape.option.encode (get s)).toJson).map _).outcome = _
  rw [Attempt.outcome_map, hrestored]
  rfl

/-- A required member is always written. -/
theorem mem_of_isRequired (h : Replays s ms t) {m : Member σ} (hm : m ∈ ms)
    (hreq : m.isRequired = true) : m.name ∈ (writeMembers s ms).map Prod.fst := by
  induction h with
  | done => cases hm
  | @written m' ms d t t' hw hr h ih =>
    rw [writeMembers, hw]
    rcases List.mem_cons.mp hm with rfl | hm
    · exact .head _
    · exact .tail _ (ih hm)
  | @absent m' ms t hw hm' h ih =>
    rw [writeMembers, hw]
    rcases List.mem_cons.mp hm with rfl | hm
    · rw [hreq] at hm'
      cases hm'
    · exact ih hm

end Replays

theorem member?_of_mem (hnames : r.names.Nodup) {m : Member σ} (hm : m ∈ r.members) :
    r.member? m.name = some m := by
  rw [names] at hnames
  rw [member?]
  generalize r.members = ms at hnames hm
  induction ms with
  | nil => cases hm
  | cons m' ms ih =>
    rw [List.map_cons, List.nodup_cons] at hnames
    rcases List.mem_cons.mp hm with rfl | hm
    · rw [List.find?_cons_of_pos (by simp)]
    · have hne : m'.name ≠ m.name := by
        intro heq
        exact hnames.1 (heq ▸ List.mem_map_of_mem hm)
      rw [List.find?_cons_of_neg (by simpa using hne), ih hnames.2 hm]

theorem readMembers_of_replays (h : Replays s ms t) (hmem : ∀ m ∈ ms, r.member? m.name = some m)
    (hnames : (ms.map Member.name).Nodup) {seen : List String} (hseen : ∀ m ∈ ms, m.name ∉ seen) :
    (r.readMembers seen (Datum.membersToJson (writeMembers s ms)) t).outcome = .ok s := by
  induction h generalizing seen with
  | done => rfl
  | @written m ms d t t' hw hr h ih =>
    rw [List.forall_mem_cons] at hmem hseen
    rw [List.map_cons, List.nodup_cons] at hnames
    rw [writeMembers, hw]
    simp only [Datum.membersToJson, readMembers, hmem.1, if_neg hseen.1]
    rw [Attempt.outcome_andThen_of_ok hr]
    refine ih hmem.2 hnames.2 fun n hn => ?_
    rw [List.mem_cons, not_or]
    exact ⟨fun heq => hnames.1 (heq ▸ List.mem_map_of_mem hn), hseen.2 n hn⟩
  | @absent m ms t hw hm h ih =>
    rw [List.forall_mem_cons] at hmem hseen
    rw [List.map_cons, List.nodup_cons] at hnames
    rw [writeMembers, hw]
    exact ih hmem.2 hnames.2 hseen.2

theorem names_writeMembers_sublist (s : σ) (ms : List (Member σ)) :
    ((writeMembers s ms).map Prod.fst).Sublist (ms.map Member.name) := by
  induction ms with
  | nil => exact .slnil
  | cons m ms ih =>
    rw [writeMembers, List.map_cons]
    cases m.write s with
    | none => exact ih.cons _
    | some d => exact ih.cons_cons _

/-- A record is restored when its members are, one after the other. -/
theorem restores (hnames : r.names.Nodup) (h : Replays s r.members r.blank) :
    r.shape.Restores s := by
  have hread : (r.readMembers [] (Datum.membersToJson (writeMembers s r.members)) r.blank).outcome
      = .ok s :=
    readMembers_of_replays h (fun m hm => member?_of_mem hnames hm) hnames (by simp)
  have hmissing : r.missing? (Datum.membersToJson (writeMembers s r.members)) = none := by
    rw [missing?, List.find?_eq_none]
    intro m hm
    rw [Bool.and_eq_true, not_and]
    intro hreq
    rw [Datum.map_fst_membersToJson]
    simp [h.mem_of_isRequired hm hreq]
  show (r.ofMembers (Datum.membersToJson (writeMembers s r.members))).outcome = .ok s
  rw [ofMembers, Attempt.outcome_andThen_of_ok hread, hmissing]
  rfl

/-! ## What is rejected -/

/-- A member of that name and value makes the record reject any object that has
it. -/
def Spoils (r : Record σ) (name : String) (v : Json) : Prop :=
  match r.member? name with
  | some m => ∀ t, ∃ e, (m.read v t).outcome = .error e
  | none => r.closed = true

theorem readMembers_of_spoils {given : List (String × Json)} {name : String} {v : Json}
    (hmem : (name, v) ∈ given) (h : r.Spoils name v) (seen : List String) (t : σ) :
    ∃ e, (r.readMembers seen given t).outcome = .error e := by
  induction given generalizing seen t with
  | nil => cases hmem
  | cons p given ih =>
    obtain ⟨n, w⟩ := p
    rw [readMembers]
    rcases List.mem_cons.mp hmem with heq | hmem
    · obtain ⟨rfl, rfl⟩ := Prod.mk.inj heq
      rw [Spoils] at h
      cases hm : r.member? name with
      | none =>
        rw [hm] at h
        simp only [h, if_true]
        exact ⟨_, rfl⟩
      | some m =>
        rw [hm] at h
        simp only
        split
        · exact ⟨_, rfl⟩
        · obtain ⟨e, he⟩ := h t
          exact ⟨e, Attempt.outcome_andThen_of_error he _⟩
    · cases r.member? n with
      | none =>
        simp only
        split
        · exact ⟨_, rfl⟩
        · exact ih hmem seen t
      | some m =>
        simp only
        split
        · exact ⟨_, rfl⟩
        · cases hr : (m.read w t).outcome with
          | error e => exact ⟨e, Attempt.outcome_andThen_of_error hr _⟩
          | ok t' =>
            rw [Attempt.outcome_andThen_of_ok hr]
            exact ih hmem _ t'

theorem rejects_of_spoils {given : List (String × Json)} {name : String} {v : Json}
    (hmem : (name, v) ∈ given) (h : r.Spoils name v) :
    ∃ e, (r.decode (.object given)).outcome = .error e := by
  obtain ⟨e, he⟩ := readMembers_of_spoils hmem h [] r.blank
  exact ⟨e, Attempt.outcome_andThen_of_error he _⟩

theorem rejects_of_missing {given : List (String × Json)} {m : Member σ} (hm : m ∈ r.members)
    (hreq : m.isRequired = true) (hname : m.name ∉ given.map Prod.fst) :
    ∃ e, (r.decode (.object given)).outcome = .error e := by
  show ∃ e, (r.ofMembers given).outcome = .error e
  rw [ofMembers]
  cases hr : (r.readMembers [] given r.blank).outcome with
  | error e => exact ⟨e, Attempt.outcome_andThen_of_error hr _⟩
  | ok t =>
    rw [Attempt.outcome_andThen_of_ok hr]
    cases hmissing : r.missing? given with
    | some m' => exact ⟨_, rfl⟩
    | none =>
      rw [missing?, List.find?_eq_none] at hmissing
      refine absurd ?_ (hmissing m hm)
      rw [hreq, Bool.true_and, Bool.not_eq_true', List.contains_eq_mem, decide_eq_false_iff_not]
      exact hname

end Record

end Untagged
