import Untagged.Proofs.Shape.Restored
import Untagged.Proofs.Union.Declared
import Untagged.Proofs.Union.Written

/-!
# Fruit requests survive a round trip

An apple is restored by the record of apples, which is tried first.  A banana is
passed by there, because a record of apples has no length, and it is restored by
the record of bananas if its length is finite.  A length that is not finite is
written as `null`, which is no length, and nothing at all has no required member, so
neither of the two matches any variant.
-/

namespace Untagged

namespace AppleReq

theorem restores (a : AppleReq) : record.shape.Restores a := by
  refine Record.restores (by decide) (.required (Shape.string_restores _) ?_)
  refine .omitted (fun m _ => ⟨Shape.boolean_restores m, nofun⟩) rfl ?_
  exact .done

theorem legible (a : AppleReq) (float : Double → Json) (levels : Nat) :
    (record.encode a).LegibleWith float (levels + 1) := by
  refine ⟨(Record.names_writeMembers_sublist a record.members).nodup (by decide), ?_⟩
  obtain ⟨cultivar, mealy⟩ := a
  cases mealy with
  | none => exact ⟨trivial, trivial⟩
  | some m => exact ⟨trivial, trivial, trivial⟩

/-- Apples have no length. -/
theorem spoiled_by_length (v : Json) : record.Spoils "lengthCm" v := rfl

end AppleReq

namespace BananaReq

theorem restores {b : BananaReq} (h : b.lengthCm.isFinite = true) : record.shape.Restores b := by
  refine Record.restores (by decide) (.required (Shape.double_restores h) ?_)
  refine .omitted (fun s _ => ⟨Shape.boolean_restores s, nofun⟩) rfl ?_
  exact .done

theorem spoiled_by_null : record.Spoils "lengthCm" .null := fun _ => ⟨_, rfl⟩

/-- The first member that is written for a banana is its length. -/
theorem length_mem_encode (b : BananaReq) :
    ∃ ms, (record.encode b).toJson =
      .object (("lengthCm", Datum.floatToJson b.lengthCm) :: ms) :=
  ⟨_, rfl⟩

end BananaReq

namespace Double

/-- A number is infinite when its code is the code of infinity. -/
def isInfinite (x : Double) : Bool := x.code == infinityCode

theorem isFinite_eq_false_iff {x : Double} :
    x.isFinite = false ↔ x.isNaN = true ∨ x.isInfinite = true := by
  simp only [isFinite, isNaN, isInfinite, decide_eq_false_iff_not, decide_eq_true_eq, beq_iff_eq]
  omega

end Double

/-! ## Decoding what was encoded -/

theorem appleCandidate_rejects_banana (b : BananaReq) :
    (Candidate.ofShape "AppleReq" AppleReq.record.shape FruitVariant.apple).Rejects
      (BananaReq.record.encode b).toJson := by
  obtain ⟨ms, hms⟩ := b.length_mem_encode
  rw [Candidate.ofShape_rejects_iff, hms]
  exact Record.rejects_of_spoils (.head ms) (AppleReq.spoiled_by_length _)

theorem firstAccepts_apple (a : AppleReq) :
    FirstAccepts fruitReq.candidates (AppleReq.record.encode a).toJson 0 (.apple a) :=
  .head (Candidate.ofShape_accepts_iff.mpr ⟨a, a.restores, rfl⟩)

theorem firstAccepts_banana {b : BananaReq} (h : b.lengthCm.isFinite = true) :
    FirstAccepts fruitReq.candidates (BananaReq.record.encode b).toJson 1 (.banana b) :=
  .behind (appleCandidate_rejects_banana b)
    (.head (Candidate.ofShape_accepts_iff.mpr ⟨b, BananaReq.restores h, rfl⟩))

theorem decode_apple (a : AppleReq) :
    (fruitReq.decode (fruitReq.toJson (.holding (.apple a)))).outcome =
      .ok (.holding (.apple a)) :=
  Union.decode_of_firstAccepts rfl (firstAccepts_apple a)

theorem decode_banana {b : BananaReq} (h : b.lengthCm.isFinite = true) :
    (fruitReq.decode (fruitReq.toJson (.holding (.banana b)))).outcome =
      .ok (.holding (.banana b)) :=
  Union.decode_of_firstAccepts rfl (firstAccepts_banana h)

theorem decode_unmeasured_banana {b : BananaReq} (h : b.lengthCm.isFinite = false) :
    (fruitReq.decode (fruitReq.toJson (.holding (.banana b)))).outcome =
      .error (.noMatch "FruitReq" ["AppleReq", "BananaReq"]) := by
  obtain ⟨ms, hms⟩ := b.length_mem_encode
  rw [Datum.floatToJson_of_not_isFinite h] at hms
  refine Union.decode_of_rejects rfl (List.forall_mem_cons.mpr ⟨?_, List.forall_mem_singleton.mpr ?_⟩)
  · exact appleCandidate_rejects_banana b
  · rw [Candidate.ofShape_rejects_iff]
    show ∃ r, (BananaReq.record.decode (BananaReq.record.encode b).toJson).outcome = .error r
    rw [hms]
    exact Record.rejects_of_spoils (.head ms) BananaReq.spoiled_by_null

theorem decode_empty :
    (fruitReq.decode (fruitReq.toJson .empty)).outcome =
      .error (.noMatch "FruitReq" ["AppleReq", "BananaReq"]) := by
  refine Union.decode_of_rejects rfl (List.forall_mem_cons.mpr ⟨?_, List.forall_mem_singleton.mpr ?_⟩)
  · rw [Candidate.ofShape_rejects_iff]
    exact Record.rejects_of_missing (.head _) rfl (by decide)
  · rw [Candidate.ofShape_rejects_iff]
    exact Record.rejects_of_missing (.head _) rfl (by decide)

/-- A finite length or an apple comes back from the JSON value, and nothing else
does; an apple comes back from its texts and from a sink with room for it. -/
theorem fruitReq_roundTrip :
    (∀ x, (fruitReq.decode (fruitReq.toJson x)).outcome =
      match x with
      | .holding (.apple _) => .ok x
      | .holding (.banana b) =>
        if b.lengthCm.isNaN || b.lengthCm.isInfinite then
          .error (.noMatch "FruitReq" ["AppleReq", "BananaReq"])
        else .ok x
      | .empty => .error (.noMatch "FruitReq" ["AppleReq", "BananaReq"])) ∧
    ∀ a : AppleReq,
      let x : OneOf FruitVariant := .holding (.apple a)
      (fruitReq.decodeText (fruitReq.compactText x)).outcome = .ok x ∧
      (fruitReq.decodeText (fruitReq.prettyText x)).outcome = .ok x ∧
      ∀ spare,
        let written := fruitReq.writeTo
          (.ofCapacity ((Utf8.encode (fruitReq.compactText x)).length + spare)) x
        written.2 = true ∧ (fruitReq.decodeBytes written.1.kept).outcome = .ok x := by
  refine ⟨fun x => ?_, fun a => ?_⟩
  · match x with
    | .holding (.apple a) => exact decode_apple a
    | .holding (.banana b) =>
      by_cases h : b.lengthCm.isFinite = true
      · have hneither : (b.lengthCm.isNaN || b.lengthCm.isInfinite) = false := by
          rw [Bool.eq_false_iff, ne_eq, Bool.or_eq_true, ← Double.isFinite_eq_false_iff, h]
          decide
        simp only [hneither, Bool.false_eq_true, if_false]
        exact decode_banana h
      · have hf := Bool.eq_false_iff.mpr h
        have heither : (b.lengthCm.isNaN || b.lengthCm.isInfinite) = true := by
          rw [Bool.or_eq_true]
          exact Double.isFinite_eq_false_iff.mp hf
        simp only [heither, if_true]
        exact decode_unmeasured_banana hf
    | .empty => exact decode_empty
  · intro x
    have hlegible : (fruitReq.toDatum x).Legible Json.Reader.maxDepth := a.legible _ _
    refine ⟨?_, ?_, fun spare => ?_⟩
    · rw [Union.decodeText_compactText hlegible]
      exact decode_apple a
    · rw [Union.decodeText_prettyText hlegible]
      exact decode_apple a
    · rw [Union.writeTo_of_le (Nat.le_add_right _ spare)]
      refine ⟨rfl, ?_⟩
      rw [Union.decodeBytes_compactText hlegible]
      exact decode_apple a

end Untagged
