import Untagged.Proofs.Json.ReadBack
import Untagged.Proofs.Json.Unspaced

/-!
# Texts of data and of JSON values

A datum and the JSON value that it is are written alike: a float that JSON does not
have is `null` in both.  The compact text of a container is made of the compact texts
of what it holds, so a value is written inside other data as it is written alone.
-/

namespace Untagged

theorem Utf8.encode_inj {s t : String} (h : encode s = encode t) : s = t := by
  have hs := decode?_encode s
  rw [h, decode?_encode] at hs
  exact (Option.some.inj hs).symm

namespace Writer

variable (L : Layout)

theorem spell_floatToJson (depth : Nat) (x : Double) :
    spell L depth (.ofJson (Datum.floatToJson x)) = spell L depth (.float x) := by
  by_cases h : x.isFinite = true
  · rw [Datum.floatToJson_of_isFinite h, Datum.ofJson]
  · have hf := Bool.eq_false_iff.mpr h
    rw [Datum.floatToJson_of_not_isFinite hf, Datum.ofJson, spell, spell, floatText, hf]
    rfl

mutual

/-- A datum and its JSON value are spelled alike. -/
theorem spell_toJson (depth : Nat) : (d : Datum) →
    spell L depth (.ofJson d.toJson) = spell L depth d
  | .null => rfl
  | .boolean _ => rfl
  | .integer _ => rfl
  | .float x => spell_floatToJson L depth x
  | .string _ => rfl
  | .sequence [] => rfl
  | .sequence (d :: ds) => by
    rw [Datum.toJson, Datum.itemsToJson, Datum.ofJson, Datum.itemsOfJson, spell, spell,
      spell_toJson (depth + 1) d, spellItems_toJson (depth + 1) ds]
  | .record [] => rfl
  | .record ((name, d) :: ds) => by
    rw [Datum.toJson, Datum.membersToJson, Datum.ofJson, Datum.membersOfJson, spell, spell,
      spell_toJson (depth + 1) d, spellMembers_toJson (depth + 1) ds]

theorem spellItems_toJson (depth : Nat) : (ds : List Datum) →
    spellItems L depth (Datum.itemsOfJson (Datum.itemsToJson ds)) = spellItems L depth ds
  | [] => rfl
  | d :: ds => by
    rw [Datum.itemsToJson, Datum.itemsOfJson, spellItems, spellItems, spell_toJson depth d,
      spellItems_toJson depth ds]

theorem spellMembers_toJson (depth : Nat) : (ds : List (String × Datum)) →
    spellMembers L depth (Datum.membersOfJson (Datum.membersToJson ds)) =
      spellMembers L depth ds
  | [] => rfl
  | (name, d) :: ds => by
    rw [Datum.membersToJson, Datum.membersOfJson, spellMembers, spellMembers,
      spell_toJson depth d, spellMembers_toJson depth ds]

end

end Writer

namespace Datum

/-! ## The text of a datum and of its JSON value -/

theorem compactText_toJson (d : Datum) : d.toJson.compactText = d.compactText := by
  apply Utf8.encode_inj
  rw [Json.compactText, encode_compactText, encode_compactText, Writer.spell_toJson]

theorem prettyText_toJson (d : Datum) : d.toJson.prettyText = d.prettyText := by
  apply Utf8.encode_inj
  rw [Json.prettyText, encode_prettyText, encode_prettyText, Writer.spell_toJson]

theorem text_toJson (pretty : Bool) (d : Datum) :
    (ofJson d.toJson).text pretty = d.text pretty := by
  cases pretty with
  | true => exact prettyText_toJson d
  | false => exact compactText_toJson d

/-- The two texts of a datum differ in white space outside strings only, and the
compact one has none of it. -/
theorem unspaced_text (pretty : Bool) (d : Datum) :
    Json.unspaced (Utf8.encode (d.text pretty)) = Utf8.encode d.compactText := by
  rw [encode_compactText]
  cases pretty with
  | true =>
    show Json.unspaced (Utf8.encode d.prettyText) = _
    rw [encode_prettyText, Json.unspaced_spell]
  | false =>
    show Json.unspaced (Utf8.encode d.compactText) = _
    rw [encode_compactText, Json.unspaced_spell]

/-! ## The text of a container -/

/-- Runs of pieces, all but the first led by a comma. -/
def separated (first : Bool) : List (List String) → List String
  | [] => []
  | ps :: rest => (if first then [] else [","]) ++ ps ++ separated false rest

theorem join_separated (runs : List (List String)) :
    String.join (separated true runs) = String.intercalate "," (runs.map String.join) := by
  have hrest (ps : List String) (runs : List (List String)) :
      String.join ps ++ String.join (separated false runs) =
        String.intercalate "," ((ps :: runs).map String.join) := by
    induction runs generalizing ps with
    | nil => simp [separated]
    | cons qs runs ih =>
      have htail := ih qs
      rw [List.map_cons] at htail
      rw [List.map_cons, List.map_cons, String.intercalate_cons_cons, ← htail, separated]
      simp [String.join_append, String.append_assoc]
  cases runs with
  | nil => rfl
  | cons ps runs =>
    rw [← hrest, separated, if_pos rfl, List.nil_append, String.join_append]

theorem compactItems_eq (first : Bool) (ds : List Datum) :
    Writer.compactItems first ds = separated first (ds.map Writer.compact) := by
  induction ds generalizing first with
  | nil => rfl
  | cons d ds ih => rw [Writer.compactItems, List.map_cons, separated, ih]

/-- The pieces of a member in the compact form. -/
def memberPieces (m : String × Datum) : List String :=
  Writer.stringPieces m.1 ++ [":"] ++ Writer.compact m.2

theorem compactMembers_eq (first : Bool) (ms : List (String × Datum)) :
    Writer.compactMembers first ms = separated first (ms.map memberPieces) := by
  induction ms generalizing first with
  | nil => rfl
  | cons m ms ih =>
    obtain ⟨name, d⟩ := m
    rw [Writer.compactMembers, List.map_cons, separated, ih]
    simp only [memberPieces, List.append_assoc]

/-- A name with its quotes. -/
def nameText (name : String) : String := (string name).compactText

/-- A member as it stands in the compact text of a record. -/
def memberText (m : String × Datum) : String := nameText m.1 ++ ":" ++ m.2.compactText

theorem join_memberPieces (m : String × Datum) : String.join (memberPieces m) = memberText m := by
  rw [memberPieces, String.join_append, String.join_append]
  simp [memberText, nameText, compactText, Writer.compact]

theorem compactText_sequence (ds : List Datum) :
    (sequence ds).compactText = "[" ++ String.intercalate "," (ds.map compactText) ++ "]" := by
  have htexts : (ds.map Writer.compact).map String.join = ds.map compactText := by
    rw [List.map_map]
    rfl
  rw [compactText, Writer.compact, compactItems_eq, List.cons_append, String.join_cons,
    String.join_append, join_separated, htexts]
  simp [String.append_assoc]

theorem compactText_record (ms : List (String × Datum)) :
    (record ms).compactText = "\x7b" ++ String.intercalate "," (ms.map memberText) ++ "\x7d" := by
  have htexts : (ms.map memberPieces).map String.join = ms.map memberText := by
    rw [List.map_map]
    exact List.map_congr_left fun m _ => join_memberPieces m
  rw [compactText, Writer.compact, compactMembers_eq, List.cons_append, String.join_cons,
    String.join_append, join_separated, htexts]
  simp [String.append_assoc]

end Datum

end Untagged
