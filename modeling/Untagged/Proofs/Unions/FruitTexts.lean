import Untagged.Proofs.Json.Nearby
import Untagged.Proofs.Json.Reread
import Untagged.Proofs.Unions.Fruit

/-!
# Fruit requests as texts

Every fruit has texts that can be read.  A banana is read from them as a banana of the
length that the written one is scaled back to, with the sign of that one, and at most a
few codes away from it.  This is the same length exactly when its last quotient survives
(`Double.Survives`); it is for lengths of few digits and a moderate exponent, and it is
not for every length.
-/

namespace Untagged

theorem BananaReq.legible (b : BananaReq) (levels : Nat) :
    (record.encode b).LegibleWith Double.reread (levels + 1) := by
  refine ⟨(Record.names_writeMembers_sublist b record.members).nodup (by decide), ?_⟩
  obtain ⟨lengthCm, sweet⟩ := b
  have hlength := Double.readAs_reread lengthCm levels
  cases sweet with
  | none => exact ⟨hlength, trivial⟩
  | some s => exact ⟨hlength, trivial, trivial⟩

theorem FruitVariant.legible (a : FruitVariant) (levels : Nat) :
    a.encode.LegibleWith Double.reread (levels + 1) := by
  cases a with
  | apple a => exact a.legible _ levels
  | banana b => exact b.legible levels

theorem ofText_compactText_fruit (a : FruitVariant) :
    Json.ofText (fruitReq.compactText (.holding a)) = .ok a.encode.reread :=
  Json.ofText_text (a.legible _) false

theorem ofText_prettyText_fruit (a : FruitVariant) :
    Json.ofText (fruitReq.prettyText (.holding a)) = .ok a.encode.reread :=
  Json.ofText_text (a.legible _) true

/-! ## Lengths -/

variable {x : Double} {sweet : Option Bool}

/-- The texts of a banana are read as what is written for the banana that comes back. -/
theorem BananaReq.reread_encode (hx : x.isFinite = true) (sweet : Option Bool) :
    (record.encode ⟨x, sweet⟩).reread =
      fruitReq.toJson (.holding (.banana ⟨x.scaledBack, sweet⟩)) := by
  have hlength : x.reread = Datum.floatToJson x.scaledBack := by
    rw [Double.reread_of_isFinite hx,
      Datum.floatToJson_of_isFinite (Json.Reader.isFinite_scaledBack hx)]
  cases sweet with
  | none =>
    show Json.object [("lengthCm", x.reread)] =
      .object [("lengthCm", Datum.floatToJson x.scaledBack)]
    rw [hlength]
  | some s =>
    show Json.object [("lengthCm", x.reread), ("sweet", .boolean s)] =
      .object [("lengthCm", Datum.floatToJson x.scaledBack), ("sweet", .boolean s)]
    rw [hlength]

theorem decode_reread_banana (hx : x.isFinite = true) (sweet : Option Bool) :
    (fruitReq.decode (BananaReq.record.encode ⟨x, sweet⟩).reread).outcome =
      .ok (.holding (.banana ⟨x.scaledBack, sweet⟩)) := by
  rw [BananaReq.reread_encode hx]
  exact decode_banana (Json.Reader.isFinite_scaledBack hx)

theorem decodeText_banana (hx : x.isFinite = true) (sweet : Option Bool) :
    (fruitReq.decodeText (fruitReq.compactText (.holding (.banana ⟨x, sweet⟩)))).outcome =
        .ok (.holding (.banana ⟨x.scaledBack, sweet⟩)) ∧
      (fruitReq.decodeText (fruitReq.prettyText (.holding (.banana ⟨x, sweet⟩)))).outcome =
        .ok (.holding (.banana ⟨x.scaledBack, sweet⟩)) := by
  rw [Union.decodeText, Union.decodeText, ofText_compactText_fruit, ofText_prettyText_fruit]
  exact ⟨decode_reread_banana hx sweet, decode_reread_banana hx sweet⟩

theorem banana_eq_iff {y : Double} :
    (.holding (.banana ⟨y, sweet⟩) : OneOf FruitVariant) = .holding (.banana ⟨x, sweet⟩) ↔
      y = x := by
  simp

/-- A finite length comes back as a finite length, which is a few codes away from it at most.
Whether it is the same one is told by one quotient. -/
theorem banana_length_survives_iff (hx : x.isFinite = true) (sweet : Option Bool) :
    let written : OneOf FruitVariant := .holding (.banana ⟨x, sweet⟩)
    let shown := (Double.shortest x.code).shown
    ∃ y : Double, y.isFinite = true ∧ y.isNegative = x.isNegative ∧
      (fruitReq.decodeText (fruitReq.compactText written)).outcome =
        .ok (.holding (.banana ⟨y, sweet⟩)) ∧
      (fruitReq.decodeText (fruitReq.prettyText written)).outcome =
        .ok (.holding (.banana ⟨y, sweet⟩)) ∧
      (y.code ≤ x.code + shown.steps ∧ x.code ≤ y.code + shown.steps) ∧
      (y = x ↔ x.Survives) ∧
      (shown.digits ≤ 2 ^ 53 → -22 ≤ shown.exponent → shown.exponent ≤ 22 → y = x) := by
  intro written shown
  obtain ⟨hcompact, hpretty⟩ := decodeText_banana hx sweet
  have hsame := Double.scaledBack_eq_iff hx
  refine ⟨x.scaledBack, Json.Reader.isFinite_scaledBack hx, x.isNegative_scaledBack, hcompact,
    hpretty, Double.scaledBack_close hx, hsame, ?_⟩
  intro hdigits hlow hhigh
  exact hsame.mpr (Double.survives_of_small hdigits hlow hhigh)

/-- The length 21.5 is the quotient of two small numbers, and comes back. -/
theorem short_length_survives :
    let x := Double.ofQuotient false 43 2
    let u : OneOf FruitVariant := .holding (.banana ⟨x, some true⟩)
    x.isFinite = true ∧ (fruitReq.decodeText (fruitReq.compactText u)).outcome = .ok u ∧
      (fruitReq.decodeText (fruitReq.prettyText u)).outcome = .ok u := by
  intro x u
  have hx : x.isFinite = true := by decide +kernel
  obtain ⟨y, -, -, hcompact, hpretty, -, -, hsmall⟩ := banana_length_survives_iff hx (some true)
  obtain rfl : y = x := hsmall (by decide +kernel) (by decide +kernel) (by decide +kernel)
  exact ⟨hx, hcompact, hpretty⟩

/-- The length 8000000000000001 is written with a zero behind the point, which makes its
digits more than a number of the format can hold.  It comes back as another length. -/
theorem long_length_changes :
    ¬ ∀ (x : Double) (sweet : Option Bool), x.isFinite = true →
      (fruitReq.decodeText (fruitReq.compactText (.holding (.banana ⟨x, sweet⟩)))).outcome =
        .ok (.holding (.banana ⟨x, sweet⟩)) := by
  intro h
  have hx : (Double.ofNat 8000000000000001).isFinite = true := by decide +kernel
  have hback : (Double.ofNat 8000000000000001).scaledBack = Double.ofNat 8000000000000002 := by
    decide +kernel
  have hother : Double.ofNat 8000000000000002 ≠ Double.ofNat 8000000000000001 := by
    decide +kernel
  have hread := h (Double.ofNat 8000000000000001) none hx
  rw [(decodeText_banana hx none).1, Except.ok.injEq, banana_eq_iff, hback] at hread
  exact hother hread

end Untagged
