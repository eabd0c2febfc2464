import Untagged.Proofs.Agreement
import Untagged.Proofs.Shape.Restored
import Untagged.Proofs.Union.Trial
import Untagged.Unions.Fruit
import Untagged.Unions.Named

/-!
# The declared order

Reordering the candidates of a union changes neither which documents are decoded
nor the kind of failure of the others: a document is decoded where any candidate
accepts it.  What the order decides is the value, and it does so exactly for the
documents of which two candidates make different values
(`agree_reordered_eq_iff`).  A union is unambiguous when no document is accepted by
two candidates; its order says nothing at all.

Fruit requests are unambiguous.  An object that one record reads has the record's
required member, and a closed record that does not know this member reads no such
object (`Record.not_both_object`).  In an array the first elements are of different
types.
-/

namespace Untagged

/-- Failures of one kind.  The variants tried may be listed in different orders. -/
inductive DecodeError.SameKind : DecodeError → DecodeError → Prop
  | malformed (union : String) (found : Found) :
    SameKind (.malformed union found) (.malformed union found)
  | noMatch (union : String) {tried tried' : List String} (h : tried.Perm tried') :
    SameKind (.noMatch union tried) (.noMatch union tried')
  | invalid (union : String) (findings : List Finding) :
    SameKind (.invalid union findings) (.invalid union findings)

namespace Union

variable {α : Type}

/-- The union with its candidates in the order of `cs`. -/
def reordered (u : Union α) (cs : List (Candidate α)) : Union α := { u with candidates := cs }

/-- The candidates that accept the document make the same value of it. -/
def Concurs (u : Union α) (v : Json) : Prop :=
  ∀ c ∈ u.candidates, ∀ d ∈ u.candidates, ∀ a b, c.Accepts v a → d.Accepts v b → a = b

/-- No object and no array is accepted by two different candidates. -/
def Unambiguous (u : Union α) : Prop :=
  ∀ v, v.kind.isContainer = true → ∀ c ∈ u.candidates, ∀ d ∈ u.candidates, ∀ a b,
    c.Accepts v a → d.Accepts v b → c = d

theorem Unambiguous.concurs {u : Union α} (h : u.Unambiguous) {v : Json}
    (hv : v.kind.isContainer = true) : u.Concurs v := by
  intro c hc d hd a b ha hb
  have hcd : c = d := h v hv c hc d hd a b ha hb
  rw [← hcd] at hb
  exact ha.unique hb

/-- A document that is decoded was accepted by one of the candidates. -/
theorem exists_accepts_of_decode {u : Union α} {v : Json} {x : OneOf α}
    (h : (u.decode v).outcome = .ok x) :
    ∃ c ∈ u.candidates, ∃ a, c.Accepts v a ∧ x = .holding a := by
  obtain ⟨-, k, a, hk, hx⟩ := decode_eq_ok_iff.mp h
  obtain ⟨c, hc, ha⟩ := hk.accepts
  exact ⟨c, List.mem_of_getElem? hc, a, ha, hx⟩

theorem decode_of_head_accepts {u : Union α} {c : Candidate α} {cs : List (Candidate α)}
    {v : Json} {a : α} (hv : v.kind.isContainer = true) (ha : c.Accepts v a) :
    ((u.reordered (c :: cs)).decode v).outcome = .ok (.holding a) :=
  decode_of_firstAccepts hv (FirstAccepts.head ha)

/-- Any candidate can be brought to the front. -/
theorem exists_perm_cons {c : Candidate α} {cs : List (Candidate α)} (h : c ∈ cs) :
    ∃ ds, (c :: ds).Perm cs := by
  obtain ⟨before, behind, rfl⟩ := List.append_of_mem h
  exact ⟨before ++ behind, List.perm_middle.symm⟩

/-! ## Two orders of one union -/

theorem agree_reordered {u : Union α} {cs : List (Candidate α)} (h : cs.Perm u.candidates)
    (v : Json) :
    Agree DecodeError.SameKind (fun _ _ => True) (u.decode v).outcome
      ((u.reordered cs).decode v).outcome := by
  by_cases hv : v.kind.isContainer = true
  · -- Whether all candidates reject the document does not depend on their order.
    have hrejects : (∀ c ∈ cs, c.Rejects v) ↔ ∀ c ∈ u.candidates, c.Rejects v :=
      ⟨fun hr c hc => hr c (h.mem_iff.mpr hc), fun hr c hc => hr c (h.mem_iff.mp hc)⟩
    cases hx : (u.decode v).outcome with
    | error e =>
      obtain ⟨hscalar, -⟩ | ⟨-, hall, rfl⟩ := decode_eq_error_iff.mp hx
      · rw [hv] at hscalar
        cases hscalar
      · have hy := decode_of_rejects (u := u.reordered cs) hv (hrejects.mpr hall)
        have htried : u.names.Perm (u.reordered cs).names := h.symm.map Candidate.name
        rw [hy]
        exact .error (.noMatch u.name htried)
    | ok x =>
      cases hy : ((u.reordered cs).decode v).outcome with
      | ok y => exact .ok trivial
      | error e =>
        obtain ⟨hscalar, -⟩ | ⟨-, hall, -⟩ := decode_eq_error_iff.mp hy
        · rw [hv] at hscalar
          cases hscalar
        · obtain ⟨c, hc, a, ha, -⟩ := exists_accepts_of_decode hx
          exact absurd (hrejects.mp hall c hc) ha.not_rejects
  · have hf : v.kind.isContainer = false := Bool.eq_false_iff.mpr hv
    rw [decode_of_scalar hf u, decode_of_scalar hf (u.reordered cs)]
    exact .error (.malformed u.name (.kind v.kind))

/-- Where all candidates that accept the document concur, every order makes the same
value of it. -/
theorem agree_reordered_eq {u : Union α} {cs : List (Candidate α)} (h : cs.Perm u.candidates)
    {v : Json} (hv : v.kind.isContainer = true → u.Concurs v) :
    Agree DecodeError.SameKind Eq (u.decode v).outcome ((u.reordered cs).decode v).outcome := by
  have hagree := agree_reordered h v
  cases hx : (u.decode v).outcome with
  | error e =>
    rw [hx] at hagree
    cases hy : ((u.reordered cs).decode v).outcome with
    | ok y =>
      rw [hy] at hagree
      cases hagree
    | error f =>
      rw [hy] at hagree
      cases hagree with
      | error hef => exact .error hef
  | ok x =>
    obtain ⟨y, hy⟩ := hagree.exists_ok_iff.mp ⟨x, hx⟩
    obtain ⟨hcontainer, -⟩ := decode_eq_ok_iff.mp hx
    obtain ⟨c, hc, a, ha, rfl⟩ := exists_accepts_of_decode hx
    obtain ⟨d, hd, b, hb, rfl⟩ := exists_accepts_of_decode hy
    have hab : a = b := hv hcontainer c hc d (h.mem_iff.mp hd) a b ha hb
    rw [hy, hab]
    exact .ok rfl

/-- The order matters for a document exactly where two candidates make different
values of it. -/
theorem agree_reordered_eq_iff {u : Union α} {v : Json} :
    (∀ cs, cs.Perm u.candidates →
      Agree DecodeError.SameKind Eq (u.decode v).outcome
        ((u.reordered cs).decode v).outcome) ↔
      (v.kind.isContainer = true → u.Concurs v) := by
  constructor
  · intro hall hv c hc d hd a b ha hb
    -- Each of the two candidates wins where it is tried first.
    have first {e : Candidate α} {x : α} (he : e ∈ u.candidates) (hx : e.Accepts v x) :
        (u.decode v).outcome = .ok (.holding x) := by
      obtain ⟨cs, hcs⟩ := exists_perm_cons he
      have hagree := hall (e :: cs) hcs
      rw [decode_of_head_accepts hv hx] at hagree
      generalize (u.decode v).outcome = outcome at hagree
      cases hagree with
      | ok heq => rw [heq]
    have hholding := (first hc ha).symm.trans (first hd hb)
    cases hholding
    rfl
  · intro hv cs hcs
    exact agree_reordered_eq hcs hv

theorem agree_decodeRead_reordered {u : Union α} (h : u.Unambiguous)
    {cs : List (Candidate α)} (hcs : cs.Perm u.candidates) (read : Except Json.Error Json) :
    Agree DecodeError.SameKind Eq (u.decodeRead read).outcome
      ((u.reordered cs).decodeRead read).outcome := by
  cases read with
  | ok v => exact agree_reordered_eq hcs fun hv => h.concurs hv
  | error e => exact .error (.malformed u.name (.notJson e))

end Union

/-! ## Records that exclude each other -/

namespace Record

variable {σ τ : Type} {r : Record σ} {q : Record τ}

/-- An object is not read by a record with a required member and by a closed record
that does not know this member. -/
theorem not_both_object {m : Member σ} (hm : m ∈ r.members) (hrequired : m.isRequired = true)
    (hclosed : q.closed = true) (hunknown : q.member? m.name = none)
    {given : List (String × Json)} {s : σ} {t : τ}
    (hs : (r.decode (.object given)).outcome = .ok s)
    (ht : (q.decode (.object given)).outcome = .ok t) : False := by
  by_cases hname : m.name ∈ given.map Prod.fst
  · obtain ⟨⟨n, v⟩, hmem, heq⟩ := List.mem_map.mp hname
    have hspoils : q.Spoils n v := by
      obtain rfl : n = m.name := heq
      rw [Spoils, hunknown]
      exact hclosed
    obtain ⟨e, he⟩ := rejects_of_spoils hmem hspoils
    rw [ht] at he
    cases he
  · obtain ⟨e, he⟩ := rejects_of_missing hm hrequired hname
    rw [hs] at he
    cases he

/-- An array that is read has an element for the first member, if that member must
be there. -/
theorem exists_head_of_array {m : Member σ} {ms : List (Member σ)} (hms : r.members = m :: ms)
    (hpositional : m.isPositional = true) {vs : List Json} {s : σ}
    (h : (r.decode (.array vs)).outcome = .ok s) :
    ∃ v rest t, vs = v :: rest ∧ (m.read v r.blank).outcome = .ok t := by
  change (r.ofElements vs).outcome = .ok s at h
  rw [ofElements, hms] at h
  obtain ⟨t, ht, -⟩ := Attempt.outcome_andThen_eq_ok.mp h
  cases vs with
  | nil =>
    rw [readElements, if_pos hpositional] at ht
    cases ht
  | cons v rest =>
    rw [readElements] at ht
    obtain ⟨t', ht', -⟩ := Attempt.outcome_andThen_eq_ok.mp ht
    exact ⟨v, rest, t', rfl, ht'⟩

end Record

/-! ## Fruit requests -/

/-- Nothing is an apple and a banana. -/
theorem not_apple_and_banana {v : Json} {a : AppleReq} {b : BananaReq}
    (ha : (AppleReq.record.decode v).outcome = .ok a)
    (hb : (BananaReq.record.decode v).outcome = .ok b) : False := by
  cases v with
  | object given => exact Record.not_both_object (.head _) rfl rfl rfl ha hb
  | array vs =>
    obtain ⟨v, rest, t, rfl, ht⟩ := Record.exists_head_of_array rfl rfl ha
    obtain ⟨w, rest', t', heq, ht'⟩ := Record.exists_head_of_array rfl rfl hb
    obtain ⟨rfl, -⟩ := List.cons.inj heq
    -- The first element would be a string and a number.
    cases v with
    | string s => cases ht'
    | _ => cases ht
  | _ => cases ha

theorem fruitReq_candidates_disjoint {c d : Candidate FruitVariant} {v : Json}
    {a b : FruitVariant} (hc : c ∈ fruitReq.candidates) (hd : d ∈ fruitReq.candidates)
    (ha : c.Accepts v a) (hb : d.Accepts v b) : c = d := by
  have hcases {e : Candidate FruitVariant} (he : e ∈ fruitReq.candidates) :
      e = .ofShape "AppleReq" AppleReq.record.shape .apple ∨
        e = .ofShape "BananaReq" BananaReq.record.shape .banana := by
    rcases he with _ | ⟨_, _ | ⟨_, he⟩⟩
    · exact .inl rfl
    · exact .inr rfl
    · cases he
  obtain rfl | rfl := hcases hc
  · obtain rfl | rfl := hcases hd
    · rfl
    · obtain ⟨apple, happle, -⟩ := Candidate.ofShape_accepts_iff.mp ha
      obtain ⟨banana, hbanana, -⟩ := Candidate.ofShape_accepts_iff.mp hb
      exact (not_apple_and_banana happle hbanana).elim
  · obtain rfl | rfl := hcases hd
    · obtain ⟨banana, hbanana, -⟩ := Candidate.ofShape_accepts_iff.mp ha
      obtain ⟨apple, happle, -⟩ := Candidate.ofShape_accepts_iff.mp hb
      exact (not_apple_and_banana happle hbanana).elim
    · rfl

theorem fruitReq_unambiguous : fruitReq.Unambiguous :=
  fun _ _ _ hc _ hd _ _ ha hb => fruitReq_candidates_disjoint hc hd ha hb

/-- The order of the candidates decides nothing but the values of documents of which
two candidates make different ones, and there are none such for fruit requests. -/
theorem order_decides_overlaps_only :
    (∀ (α : Type) (u : Union α) cs, cs.Perm u.candidates → ∀ v,
      Agree DecodeError.SameKind (fun _ _ => True) (u.decode v).outcome
        ((u.reordered cs).decode v).outcome) ∧
    (∀ (α : Type) (u : Union α), u.Unambiguous → ∀ cs, cs.Perm u.candidates → ∀ v,
      Agree DecodeError.SameKind Eq (u.decode v).outcome ((u.reordered cs).decode v).outcome) ∧
    (∀ (α : Type) (u : Union α) v,
      (∀ cs, cs.Perm u.candidates →
        Agree DecodeError.SameKind Eq (u.decode v).outcome
          ((u.reordered cs).decode v).outcome) ↔
        (v.kind.isContainer = true → u.Concurs v)) ∧
    (∀ c ∈ fruitReq.candidates, ∀ d ∈ fruitReq.candidates, c.name = "AppleReq" →
      d.name = "BananaReq" → ∀ v a b, ¬ (c.Accepts v a ∧ d.Accepts v b)) ∧
    ∀ cs, cs.Perm fruitReq.candidates →
      (∀ v, Agree DecodeError.SameKind Eq (fruitReq.decode v).outcome
        ((fruitReq.reordered cs).decode v).outcome) ∧
      (∀ text, Agree DecodeError.SameKind Eq (fruitReq.decodeText text).outcome
        ((fruitReq.reordered cs).decodeText text).outcome) ∧
      (∀ bytes, Agree DecodeError.SameKind Eq (fruitReq.decodeBytes bytes).outcome
        ((fruitReq.reordered cs).decodeBytes bytes).outcome) ∧
      ∀ stream, Agree DecodeError.SameKind Eq (fruitReq.decodeStream stream).outcome
        ((fruitReq.reordered cs).decodeStream stream).outcome := by
  refine ⟨fun α u cs hcs v => Union.agree_reordered hcs v,
    fun α u hu cs hcs v => Union.agree_reordered_eq hcs fun hv => hu.concurs hv,
    fun α u v => Union.agree_reordered_eq_iff, ?_, fun cs hcs => ?_⟩
  · rintro c hc d hd happle hbanana v a b ⟨ha, hb⟩
    have hcd : c = d := fruitReq_candidates_disjoint hc hd ha hb
    rw [hcd, hbanana] at happle
    exact absurd happle (by decide)
  · have hread := Union.agree_decodeRead_reordered fruitReq_unambiguous hcs
    exact ⟨fun v => hread (.ok v), fun text => hread (Json.ofText text),
      fun bytes => hread (Json.ofBytes bytes), fun stream => hread (Json.ofStream stream)⟩

/-- A thing with a label is the plain thing or the labelled one, whichever is tried
first, while a banana is a banana in either order. -/
theorem order_decides_labelled_thing :
    let thing : Json := .object [("name", .string "desk"), ("label", .string "oak")]
    let things := namedFirst.reordered namedFirst.candidates.reverse
    let banana : Json := .array [.number (.integer (.ofInt64 3))]
    let fruit := fruitReq.reordered fruitReq.candidates.reverse
    Agree DecodeError.SameKind (fun _ _ => True) (namedFirst.decode thing).outcome
      (things.decode thing).outcome ∧
    (namedFirst.decode thing).outcome = .ok (.holding (.plain ⟨"desk"⟩)) ∧
    (things.decode thing).outcome = .ok (.holding (.labeled ⟨"desk", some "oak"⟩)) ∧
    ¬ namedFirst.Concurs thing ∧
    fruitReq.Unambiguous ∧
    Agree DecodeError.SameKind Eq (fruitReq.decode banana).outcome (fruit.decode banana).outcome ∧
    Agree DecodeError.SameKind Eq (fruitReq.decodeText "\x7b\"lengthCm\":3\x7d").outcome
      (fruit.decodeText "\x7b\"lengthCm\":3\x7d").outcome := by
  intro thing things banana fruit
  obtain ⟨hkind, hsame, hexact, -, hfruit⟩ := order_decides_overlaps_only
  have hthings : namedFirst.candidates.reverse.Perm namedFirst.candidates := List.reverse_perm _
  have hfruits : fruitReq.candidates.reverse.Perm fruitReq.candidates := List.reverse_perm _
  have hplain : (namedFirst.decode thing).outcome = .ok (.holding (.plain ⟨"desk"⟩)) := rfl
  have hlabeled : (things.decode thing).outcome =
      .ok (.holding (.labeled ⟨"desk", some "oak"⟩)) := rfl
  refine ⟨hkind _ namedFirst _ hthings thing, hplain, hlabeled, fun hconcurs => ?_,
    fruitReq_unambiguous, hsame _ fruitReq fruitReq_unambiguous _ hfruits _,
    (hfruit _ hfruits).2.1 _⟩
  have hagree := (hexact _ namedFirst thing).mpr (fun _ => hconcurs) _ hthings
  rw [show namedFirst.reordered namedFirst.candidates.reverse = things from rfl, hplain,
    hlabeled] at hagree
  cases hagree with
  | ok heq => cases heq

end Untagged
