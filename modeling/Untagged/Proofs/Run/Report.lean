import Untagged.Command
import Untagged.Proofs.Unions.FruitTexts

/-!
# Reports can be read

The report of a command is one JSON object.  Its members are told here as they are read,
with nothing left out: a report on a fruit says which variant it is and what it is
encoded as, and a report on a refused document has the message in place of both.
-/

namespace Untagged

/-! ## The members of a report -/

namespace Datum

mutual

theorem toJson_ofJson : (v : Json) → (ofJson v).toJson = v
  | .null => rfl
  | .boolean _ => rfl
  | .number (.integer _) => rfl
  | .number (.float x) => floatToJson_of_isFinite x.isFinite
  | .string _ => rfl
  | .array vs => by rw [ofJson, toJson, itemsToJson_itemsOfJson vs]
  | .object ms => by rw [ofJson, toJson, membersToJson_membersOfJson ms]

theorem itemsToJson_itemsOfJson : (vs : List Json) → itemsToJson (itemsOfJson vs) = vs
  | [] => rfl
  | v :: vs => by rw [itemsOfJson, itemsToJson, toJson_ofJson v, itemsToJson_itemsOfJson vs]

theorem membersToJson_membersOfJson :
    (ms : List (String × Json)) → membersToJson (membersOfJson ms) = ms
  | [] => rfl
  | (name, v) :: ms => by
    rw [membersOfJson, membersToJson, toJson_ofJson v, membersToJson_membersOfJson ms]

end

/-- Data that are the same JSON value have the same texts. -/
theorem text_congr {d e : Datum} (h : d.toJson = e.toJson) (pretty : Bool) :
    d.text pretty = e.text pretty := by
  rw [← text_toJson, h, text_toJson]

end Datum

namespace Report

/-- The report on a fruit is read as its members, the value as its encoding alone is. -/
theorem ofText_ofValue (union input variant : String) (a : FruitVariant) (pretty : Bool) :
    Json.ofText ((ofValue union input variant (fruitReq.toJson (.holding a)) []).toDatum.text
        pretty) =
      .ok (.object [("success", .boolean true), ("union", .string union),
        ("input", .string input), ("variant", .string variant), ("value", a.encode.reread)]) := by
  have hsame : (ofValue union input variant (fruitReq.toJson (.holding a)) []).toDatum.toJson =
      (Datum.record [("success", .boolean true), ("union", .string union),
        ("input", .string input), ("variant", .string variant), ("value", a.encode)]).toJson := by
    show Json.object [_, _, _, _, ("value", (Datum.ofJson a.encode.toJson).toJson)] = _
    rw [Datum.toJson_ofJson]
    rfl
  rw [Datum.text_congr hsame]
  have hnames : ["success", "union", "input", "variant", "value"].Nodup := by decide
  have hlegible : (Datum.record [("success", .boolean true), ("union", .string union),
      ("input", .string input), ("variant", .string variant), ("value", a.encode)]).LegibleWith
        Double.reread Json.Reader.maxDepth :=
    ⟨hnames, trivial, trivial, trivial, trivial, a.legible _, trivial⟩
  exact Json.ofText_text hlegible pretty

/-- The report on a refused document is read as its members. -/
theorem ofText_ofError (union input error : String) (pretty : Bool) :
    Json.ofText ((ofError union input error).toDatum.text pretty) =
      .ok (.object [("success", .boolean false), ("union", .string union),
        ("input", .string input), ("error", .string error)]) := by
  have hnames : ["success", "union", "input", "error"].Nodup := by decide
  have hlegible : (ofError union input error).toDatum.LegibleWith Double.reread
      Json.Reader.maxDepth :=
    ⟨hnames, trivial, trivial, trivial, trivial, trivial⟩
  exact Json.ofText_text hlegible pretty

end Report

end Untagged
