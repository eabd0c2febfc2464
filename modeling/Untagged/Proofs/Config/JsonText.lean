import Untagged.Proofs.Config.Json
import Untagged.Proofs.Json.ReadBack

/-!
# A JSON text for every sheet

The text of a sheet as data, compact or pretty, is a JSON text of the sheet
(`jsonSheet_text`).  That an object is read back is proved for any reader of its members
(`membership_spell`), because a sheet is read twice over: its entries, and the members
of each section.
-/

namespace Untagged

open Writer (spell spellMembers unopened)

namespace Json.Reader

/-! ## Objects, for any reader of members -/

section

variable {α : Type} {item : Bytes → Except Fault (Read α)} {toDatum : α → Datum} (L : Layout)

/-- Behind the first member, the spelling of the members is read as the members. -/
theorem membersAfter_spell (depth k : Nat) {ms : List (String × α)}
    (hms : ∀ m ∈ ms, ∀ rest, Delimited rest →
      item (L.gap ++ (spell L depth (toDatum m.2) ++ rest)) = .ok (m.2, rest))
    {fuel : Nat} (hfuel : ms.length < fuel) (rest : Bytes) :
    membersAfter item fuel
        (spellMembers L depth (ms.map fun m => (m.1, toDatum m.2)) ++
          (L.lead k ++ 125 :: rest)) = .ok (ms, rest) := by
  induction ms generalizing fuel with
  | nil =>
    obtain ⟨fuel, rfl⟩ : ∃ n, fuel = n + 1 := ⟨fuel - 1, by omega⟩
    exact membersAfter_end (L.lead_blank k) fuel
  | cons m ms ih =>
    rw [List.length_cons] at hfuel
    rw [List.forall_mem_cons] at hms
    obtain ⟨fuel, rfl⟩ : ∃ n, fuel = n + 1 := ⟨fuel - 1, by omega⟩
    rw [List.map_cons, spellMembers]
    simp only [List.append_assoc, List.cons_append]
    exact membersAfter_cons (L.lead_blank _)
      (member_cons m.1 (hms.1 _ (delimited_spellMembers L _ _ _ rest)))
      (ih hms.2 (by omega))

/-- The spelling of a record is an object with its members. -/
theorem membership_spell (depth : Nat) (ms : List (String × α))
    (hms : ∀ m ∈ ms, ∀ rest, Delimited rest →
      item (L.gap ++ (spell L (depth + 1) (toDatum m.2) ++ rest)) = .ok (m.2, rest)) :
    ∃ inside, spell L depth (.record (ms.map fun m => (m.1, toDatum m.2))) = 123 :: inside ∧
      ∀ rest, membership item (inside ++ rest) = .ok (ms, rest) := by
  cases ms with
  | nil => exact ⟨_, rfl, fun rest => membership_nil⟩
  | cons m ms =>
    rw [List.forall_mem_cons] at hms
    refine ⟨_, by rw [List.map_cons, spell], fun rest => ?_⟩
    simp only [List.append_assoc, List.cons_append, List.nil_append]
    refine membership_cons (L.lead_blank _)
      (member_cons m.1 (hms.1 _ (delimited_spellMembers L _ _ _ rest))) ?_
    refine membersAfter_spell L (depth + 1) depth hms.2 ?_ rest
    have hlength := length_le_spellMembers L (depth + 1) (ms.map fun m => (m.1, toDatum m.2))
    rw [List.length_map] at hlength
    simp only [List.length_append, List.length_cons]
    omega

end

/-! ## Sheets -/

section

variable {s rest : Bytes}

theorem sheetEntry_of_scalar {c : Scalar} (h : scalar s = .ok (c, rest)) :
    sheetEntry s = .ok (.scalar c, rest) := by
  have hvalue := scalar_eq_ok_iff.mp h
  obtain ⟨b, r, hs, -, -, hobject⟩ := Json.Direct.first_of_value hvalue
  have hb : b ≠ 123 := hobject (by cases c <;> nofun)
  have hbehind : scalar (b :: r) = .ok (c, rest) := by
    rw [scalar_eq_ok_iff, ← hs, value_skipBlanks]
    exact hvalue
  rw [sheetEntry, hs]
  simp only [if_neg hb, hbehind]
  rfl

theorem sheetEntry_of_members {ms : List (String × Scalar)} {r : Bytes}
    (hs : skipBlanks s = 123 :: r) (h : membership scalar r = .ok (ms, rest)) :
    sheetEntry s = .ok (.members ms, rest) := by
  rw [sheetEntry, hs]
  simp only [if_true, h]
  rfl

variable (L : Layout)

theorem scalar_spell (depth : Nat) (c : Scalar) (hrest : Delimited rest) :
    scalar (L.gap ++ (spell L depth c.toDatum ++ rest)) = .ok (c, rest) := by
  have hread : ReadAs 0 (spell L depth c.toDatum) (c.toDatum.readWith Datum.floatToJson) := by
    refine spell_readAs L depth c.toDatum ?_
    cases c <;> trivial
  have hjson : c.toDatum.readWith Datum.floatToJson = c.toJson := by
    cases c <;> rfl
  rw [scalar_eq_ok_iff, value_append L.gap_blank, hread.read rest hrest, hjson]

theorem sheetEntry_spell (depth : Nat) (e : Sheet.Entry) (hrest : Delimited rest) :
    sheetEntry (L.gap ++ (spell L depth e.toDatum ++ rest)) = .ok (e, rest) := by
  cases e with
  | scalar c => exact sheetEntry_of_scalar (scalar_spell L depth c hrest)
  | members ms =>
    obtain ⟨inside, hspell, hinside⟩ := membership_spell L depth ms
      fun m _ rest hrest => scalar_spell L (depth + 1) m.2 hrest
    refine sheetEntry_of_members ?_ (hinside rest)
    rw [skipBlanks_append L.gap_blank, Sheet.Entry.toDatum, hspell]
    rfl

end

end Json.Reader

theorem jsonSheet_of_spell {d : Sheet} (L : Layout) {text : String}
    (h : Utf8.encode text = spell L 0 d.toDatum) : JsonSheet text d := by
  obtain ⟨inside, hspell, hinside⟩ := Json.Reader.membership_spell L 0 d.entries
    fun m _ rest hrest => Json.Reader.sheetEntry_spell L 1 m.2 hrest
  have hread := hinside []
  rw [List.append_nil] at hread
  refine .intro ?_ hread rfl (.refl _)
  rw [h, Sheet.toDatum, hspell]
  rfl

/-- The text of a sheet, compact or pretty, says what the sheet says. -/
theorem jsonSheet_text (d : Sheet) (pretty : Bool) : JsonSheet (d.toDatum.text pretty) d := by
  cases pretty with
  | true => exact jsonSheet_of_spell .indented (Datum.encode_prettyText _)
  | false => exact jsonSheet_of_spell .tight (Datum.encode_compactText _)

end Untagged
