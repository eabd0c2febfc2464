import Untagged.Proofs.Union.Sameness
import Untagged.Proofs.Unions.Orderly
import Untagged.Unions.Series

/-!
# Member order and the unions

The unions over fruit, names, series and orders respect equality of documents.
Equal documents make equal variants; only the length of a banana may be a zero of
either sign, and its equality is that of numbers.
-/

namespace Untagged

/-! ## The records -/

theorem AppleReq.record_respects : AppleReq.record.shape.Respects Eq := by
  refine Record.respects record_orderly rfl ?_
  intro m hm
  rcases hm with _ | ⟨_, _ | ⟨_, hm⟩⟩
  · exact (Member.required_setsBy _ _).respects_eq Shape.string_respects
  · exact (Member.omitted_setsBy _ _).respects_eq (Shape.option_respects_eq Shape.boolean_respects)
  · cases hm

theorem Named.record_respects (name : String) : (Named.record name).shape.Respects Eq := by
  refine Record.respects (record_orderly name) rfl ?_
  intro m hm
  rcases hm with _ | ⟨_, hm⟩
  · exact (Member.required_setsBy _ _).respects_eq Shape.string_respects
  · cases hm

theorem Labeled.record_respects (name : String) : (Labeled.record name).shape.Respects Eq := by
  refine Record.respects (record_orderly name) rfl ?_
  intro m hm
  rcases hm with _ | ⟨_, _ | ⟨_, hm⟩⟩
  · exact (Member.required_setsBy _ _).respects_eq Shape.string_respects
  · exact (Member.defaulted_setsBy _ _).respects_eq (Shape.option_respects_eq Shape.string_respects)
  · cases hm

theorem Quantity.record_respects : Quantity.record.shape.Respects Eq := by
  refine Record.respects record_orderly rfl ?_
  intro m hm
  rcases hm with _ | ⟨_, hm⟩
  · exact (Member.required_setsBy _ _).respects_eq Shape.int64_respects
  · cases hm

namespace BananaReq

theorem same_iff {a b : BananaReq} :
    a.same b = true ↔ a.lengthCm.equal b.lengthCm = true ∧ a.sweet = b.sweet := by
  rw [same, Bool.and_eq_true, beq_iff_eq]

theorem record_respects : record.shape.Respects fun a b => a.same b = true := by
  refine Record.respects record_orderly (by decide) ?_
  intro m hm
  rcases hm with _ | ⟨_, _ | ⟨_, hm⟩⟩
  · refine (Member.required_setsBy _ _).respects Shape.double_respects ?_
    intro x y s t hxy hst
    exact same_iff.mpr ⟨hxy, (same_iff.mp hst).2⟩
  · refine (Member.omitted_setsBy _ _).respects
      (Shape.option_respects_eq Shape.boolean_respects) ?_
    intro x y s t hxy hst
    exact same_iff.mpr ⟨(same_iff.mp hst).1, hxy⟩
  · cases hm

end BananaReq

/-! ## The unions -/

theorem fruitReq_respectsSameness : fruitReq.RespectsSameness := by
  refine Union.respectsSameness (R := fun a b => a.same b = true) ?_ ?_
  · intro c hc
    rcases hc with _ | ⟨_, _ | ⟨_, hc⟩⟩
    · refine Candidate.ofShape_respects AppleReq.record_respects ?_
      rintro a _ rfl
      exact beq_self_eq_true a
    · exact Candidate.ofShape_respects BananaReq.record_respects fun _ _ hab => hab
    · cases hc
  · intro a b hab
    refine ⟨hab, ?_⟩
    cases a with
    | apple _ =>
      cases b with
      | apple _ => rfl
      | banana _ => cases hab
    | banana _ =>
      cases b with
      | apple _ => cases hab
      | banana _ => rfl

theorem namedFirst_respectsSameness : namedFirst.RespectsSameness := by
  refine Union.respectsSameness_eq ?_ beq_self_eq_true
  intro c hc
  rcases hc with _ | ⟨_, _ | ⟨_, hc⟩⟩
  · exact Candidate.ofShape_respects_eq (Named.record_respects "Named")
  · exact Candidate.ofShape_respects_eq (Labeled.record_respects "Labeled")
  · cases hc

theorem labeledFirst_respectsSameness : labeledFirst.RespectsSameness := by
  refine Union.respectsSameness_eq ?_ beq_self_eq_true
  intro c hc
  rcases hc with _ | ⟨_, _ | ⟨_, hc⟩⟩
  · exact Candidate.ofShape_respects_eq (Labeled.record_respects "Note")
  · exact Candidate.ofShape_respects_eq (Named.record_respects "Tag")
  · cases hc

theorem series_respectsSameness : series.RespectsSameness := by
  refine Union.respectsSameness_eq ?_ beq_self_eq_true
  intro c hc
  rcases hc with _ | ⟨_, _ | ⟨_, hc⟩⟩
  · exact Candidate.ofShape_respects_eq (Shape.list_respects_eq Shape.int64_respects)
  · exact Candidate.ofShape_respects_eq (Shape.list_respects_eq Shape.string_respects)
  · cases hc

theorem tracked_respectsSameness : tracked.RespectsSameness := by
  refine Union.respectsSameness_eq ?_ beq_self_eq_true
  intro c hc
  rcases hc with _ | ⟨_, hc⟩
  · exact Candidate.ofShape_respects_eq (Named.record_respects "Named")
  · cases hc

theorem order_respectsSameness : order.RespectsSameness := by
  refine Union.respectsSameness_eq ?_ beq_self_eq_true
  intro c hc
  rcases hc with _ | ⟨_, hc⟩
  · exact Candidate.ofShape_respects_eq Quantity.record_respects
  · cases hc

/-- What is read from a text is a document.  Two documents that are equal become equal
values of one variant, or fail with one error. -/
theorem equal_documents_decode_alike :
    (∀ text v, Json.ofText text = .ok v → ∃ d : Json.Document, d.value = v) ∧
    ∀ d e : Json.Document, Json.same d.value e.value = true →
      let v := d.value
      let w := e.value
      Agree Eq fruitReq.Alike (fruitReq.decode v).outcome (fruitReq.decode w).outcome ∧
      Agree Eq namedFirst.Alike (namedFirst.decode v).outcome (namedFirst.decode w).outcome ∧
      Agree Eq labeledFirst.Alike (labeledFirst.decode v).outcome
        (labeledFirst.decode w).outcome ∧
      Agree Eq series.Alike (series.decode v).outcome (series.decode w).outcome ∧
      Agree Eq tracked.Alike (tracked.decode v).outcome (tracked.decode w).outcome ∧
      Agree Eq order.Alike (order.decode v).outcome (order.decode w).outcome := by
  refine ⟨fun text v h => ⟨⟨v, Json.distinct_of_ofText h⟩, rfl⟩, fun d e hsame => ?_⟩
  have hd := d.distinct
  have he := e.distinct
  exact ⟨fruitReq_respectsSameness _ _ hd he hsame, namedFirst_respectsSameness _ _ hd he hsame,
    labeledFirst_respectsSameness _ _ hd he hsame, series_respectsSameness _ _ hd he hsame,
    tracked_respectsSameness _ _ hd he hsame, order_respectsSameness _ _ hd he hsame⟩

/-- A banana whose length is zero, and the one with its members swapped and the other
zero: what is made of them is alike and not identical.  A list of numbers that was
read is equal to itself. -/
theorem zero_bananas_decode_alike :
    let v : Json := .object [("lengthCm", .number (.float ⟨.zero, rfl⟩)), ("sweet", .boolean true)]
    let w : Json := .object [("sweet", .boolean true),
      ("lengthCm", .number (.float ⟨Double.ofCode true 0, rfl⟩))]
    let ones : Json := .array [.number (.integer (.ofInt64 1))]
    Agree Eq fruitReq.Alike (fruitReq.decode v).outcome (fruitReq.decode w).outcome ∧
    (fruitReq.decode v).outcome ≠ (fruitReq.decode w).outcome ∧
    Json.ofText "[1]" = .ok ones ∧
    Agree Eq series.Alike (series.decode ones).outcome (series.decode ones).outcome := by
  intro v w ones
  obtain ⟨hread, halike⟩ := equal_documents_decode_alike
  have hv : v.Distinct := by simp [v, Json.Distinct, Json.DistinctMembers]
  have hw : w.Distinct := by simp [w, Json.Distinct, Json.DistinctMembers]
  have hones : Json.ofText "[1]" = .ok ones := rfl
  obtain ⟨d, hd⟩ := hread "[1]" ones hones
  refine ⟨(halike ⟨v, hv⟩ ⟨w, hw⟩ rfl).1, by decide, hones, ?_⟩
  rw [← hd]
  exact (halike d d (hd ▸ rfl)).2.2.2.1

end Untagged
