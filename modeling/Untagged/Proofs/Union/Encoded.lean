import Untagged.Load
import Untagged.Proofs.Json.Texts
import Untagged.Proofs.Union.Written

/-!
# What is written for a value

A value of a union can be written as compact text, as pretty text, into a sink, and
as a JSON value.  All four say the same: both texts are texts of the JSON value and
differ in white space only, and a sink with room for it takes the compact text.  A
value that stands inside other data is written there as it is written alone, because
a union writes nothing of its own around its variant.
-/

namespace Untagged.Union

variable {α : Type}

/-- The items of a list of values are written one by one. -/
theorem compactText_list (u : Union α) (xs : List (OneOf α)) :
    ((Shape.list u.shape).encode xs).compactText =
      "[" ++ String.intercalate "," (xs.map u.compactText) ++ "]" := by
  have hitems : (xs.map u.shape.encode).map Datum.compactText = xs.map u.compactText := by
    rw [List.map_map]
    rfl
  show (Datum.sequence (xs.map u.shape.encode)).compactText = _
  rw [Datum.compactText_sequence, hitems]

/-- A value that is a member of a record, among any others, is written as it is
alone. -/
theorem compactText_member (u : Union α) (x : OneOf α) (before after : List (String × Datum))
    (name : String) :
    (Datum.record (before ++ (name, u.shape.encode x) :: after)).compactText =
      "\x7b" ++ String.intercalate "," (before.map Datum.memberText
        ++ (Datum.nameText name ++ ":" ++ u.compactText x) :: after.map Datum.memberText)
        ++ "\x7d" := by
  have hmember : Datum.memberText (name, u.shape.encode x) =
      Datum.nameText name ++ ":" ++ u.compactText x := rfl
  rw [Datum.compactText_record, List.map_append, List.map_cons, hmember]

/-- What is reported about a value is rendered as the JSON value reported. -/
theorem rendered_loadedValue (u : Union α) (pretty : Bool) (x : OneOf α) :
    (u.loadedValue pretty x).rendered =
      (Datum.ofJson (u.loadedValue pretty x).value).text pretty := by
  have htext := Datum.text_toJson pretty (u.toDatum x)
  exact htext.symm

/-- The encodings of a value say the same. -/
structure EncodingsAgree (u : Union α) (x : OneOf α) : Prop where
  /-- The texts are those of the JSON value. -/
  compact : u.compactText x = (u.toJson x).compactText
  pretty : u.prettyText x = (u.toJson x).prettyText
  /-- Without the white space between its tokens, the pretty text is the compact one, which
  has none. -/
  unspaced_pretty : Json.unspaced (Utf8.encode (u.prettyText x)) = Utf8.encode (u.compactText x)
  unspaced_compact : Json.unspaced (Utf8.encode (u.compactText x)) = Utf8.encode (u.compactText x)
  /-- A sink with room takes the compact text, and keeps what it held. -/
  written : ∀ kept spare,
    u.writeTo ⟨kept, (Utf8.encode (u.compactText x)).length + spare⟩ x =
      (⟨kept ++ Utf8.encode (u.compactText x), spare⟩, true)
  /-- Inside a list or a record a value is written as it is alone. -/
  items : ∀ xs, ((Shape.list u.shape).encode xs).compactText =
    "[" ++ String.intercalate "," (xs.map u.compactText) ++ "]"
  member : ∀ before name after,
    (Datum.record (before ++ (name, u.shape.encode x) :: after)).compactText =
      "\x7b" ++ String.intercalate "," (before.map Datum.memberText
        ++ (Datum.nameText name ++ ":" ++ u.compactText x) :: after.map Datum.memberText)
        ++ "\x7d"
  /-- What is reported about the value is rendered as the JSON value reported. -/
  reported : ∀ pretty, (u.loadedValue pretty x).rendered =
    (Datum.ofJson (u.loadedValue pretty x).value).text pretty

/-- All encodings of all values agree, also of those that are not read back. -/
theorem encodings_agree (u : Union α) (x : OneOf α) : u.EncodingsAgree x where
  compact := (Datum.compactText_toJson (u.toDatum x)).symm
  pretty := (Datum.prettyText_toJson (u.toDatum x)).symm
  unspaced_pretty := Datum.unspaced_text true (u.toDatum x)
  unspaced_compact := Datum.unspaced_text false (u.toDatum x)
  written kept spare := u.writeTo_of_room x kept spare
  items xs := u.compactText_list xs
  member before name after := u.compactText_member x before after name
  reported pretty := u.rendered_loadedValue pretty x

example :
    fruitReq.prettyText (.holding (.banana ⟨.infinity true, some true⟩)) =
      "\x7b\n  \"lengthCm\": null,\n  \"sweet\": true\n\x7d" := by
  decide +kernel

end Untagged.Union
