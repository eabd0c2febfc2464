import Untagged.Proofs.Json.Floats
import Untagged.Proofs.Json.Texts

/-!
# Every text is read

Whatever a float is, its text can be read, as `Double.reread`: a finite float as a finite
float, which may differ a little, and every other one as `null`.  So the texts of a datum
are read as the JSON value of the datum, but for its finite floats (`Datum.reread`).
-/

namespace Untagged

open Json.Reader (ReadAs)

namespace Double

/-- What the text of a float is read as. -/
def reread (x : Double) : Json :=
  match Json.ofText (Writer.floatText x) with
  | .ok v => v
  | .error _ => .null

theorem reread_of_readAs {x : Double} {v : Json}
    (h : ReadAs Json.Reader.maxDepth (Utf8.encode (Writer.floatText x)) v) : x.reread = v := by
  have hread := h.read [] trivial
  rw [List.append_nil] at hread
  have hdocument : Json.Reader.document (Utf8.encode (Writer.floatText x)) = .ok v := by
    rw [Json.Reader.document, Json.Reader.documentWithin, hread]
    rfl
  simp only [reread, Json.ofText, hdocument]
  rfl

/-- The text of a finite float is read as the float that it is scaled back to. -/
theorem readAs_of_isFinite {x : Double} (h : x.isFinite = true) (levels : Nat) :
    ReadAs levels (Utf8.encode (Writer.floatText x))
      (.number (.float ⟨x.scaledBack, Json.Reader.isFinite_scaledBack h⟩)) := by
  obtain ⟨⟨b, r, hb, hfirst⟩, hread⟩ := Json.Reader.valueOver_float h
  have hbegins : Json.Reader.Begins (Utf8.encode x.toText) := by
    rcases hfirst with rfl | hdigit
    · exact ⟨45, r, hb, by decide, by decide⟩
    · exact ⟨b, r, hb, Json.Reader.not_isBlank_of_isDigit hdigit,
        Json.Reader.ne_of_isDigit hdigit (by decide)⟩
  rw [Writer.floatText, if_pos h]
  exact .of_valueOver hbegins hread levels

theorem readAs_of_not_isFinite {x : Double} (h : x.isFinite = false) (levels : Nat) :
    ReadAs levels (Utf8.encode (Writer.floatText x)) .null := by
  have hnull : Writer.floatText x = "null" := by
    rw [Writer.floatText, if_neg (by rw [h]; decide)]
  rw [hnull]
  exact Json.Reader.readAs_null levels

theorem reread_of_isFinite {x : Double} (h : x.isFinite = true) :
    x.reread = .number (.float ⟨x.scaledBack, Json.Reader.isFinite_scaledBack h⟩) :=
  reread_of_readAs (readAs_of_isFinite h _)

theorem reread_of_not_isFinite {x : Double} (h : x.isFinite = false) : x.reread = .null :=
  reread_of_readAs (readAs_of_not_isFinite h _)

theorem readAs_reread (x : Double) (levels : Nat) :
    ReadAs levels (Utf8.encode (Writer.floatText x)) x.reread := by
  cases h : x.isFinite with
  | true =>
    rw [reread_of_isFinite h]
    exact readAs_of_isFinite h levels
  | false =>
    rw [reread_of_not_isFinite h]
    exact readAs_of_not_isFinite h levels

end Double

namespace Datum

/-- What the texts of a datum are read as. -/
def reread (d : Datum) : Json := d.readWith Double.reread

end Datum

end Untagged
