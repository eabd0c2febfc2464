import Untagged.Proofs.Union.Written
import Untagged.Unions.Named

/-!
# Encoding into bounded space

A value is encoded into a sink of some capacity as many small pieces: punctuation,
runs of strings, escapes, numbers.  The sink may fill up inside any of them.  What it
holds then is the beginning of the text, cut at its capacity, in whatever piece or
character that falls (`encodeTo_fst`), and the encoding fails exactly when the text is
longer than that (`encodeTo_snd`).
-/

namespace Untagged.Union

variable {α : Type}

/-- An encoding fails exactly when a piece does not fit. -/
theorem encodeTo_eq (u : Union α) (sink : Sink) (x : OneOf α) :
    u.encodeTo sink x =
      ((u.writeTo sink x).1,
        if (u.writeTo sink x).2 = true then .ok () else .error unwritten) := by
  rw [encodeTo]
  rcases u.writeTo sink x with ⟨written, fits⟩
  cases fits with
  | true => rfl
  | false => rfl

/-- What a sink of some capacity holds after an encoding, and its room. -/
theorem encodeTo_fst (u : Union α) (capacity : Nat) (x : OneOf α) :
    (u.encodeTo (.ofCapacity capacity) x).1 =
      ⟨(Utf8.encode (u.compactText x)).take capacity,
        capacity - (Utf8.encode (u.compactText x)).length⟩ := by
  rw [encodeTo_eq, writeTo_eq_put]
  exact Sink.put_ofCapacity capacity _

theorem encodeTo_snd (u : Union α) (capacity : Nat) (x : OneOf α) :
    (u.encodeTo (.ofCapacity capacity) x).2 =
      if (Utf8.encode (u.compactText x)).length ≤ capacity then .ok ()
      else .error unwritten := by
  have hfits := Sink.put_eq_true_iff (.ofCapacity capacity) (Utf8.encode (u.compactText x))
  rw [encodeTo_eq, writeTo_eq_put]
  by_cases h : (Utf8.encode (u.compactText x)).length ≤ capacity
  · rw [if_pos h]
    exact if_pos (hfits.mpr h)
  · rw [if_neg h]
    exact if_neg (fun hput => h (hfits.mp hput))

/-- An encoding that fails stops at the first piece that does not fit. -/
theorem writeTo_stops {u : Union α} {capacity : Nat} {x : OneOf α}
    (h : capacity < (Utf8.encode (u.compactText x)).length) :
    ∃ done piece later, Writer.compact (u.toDatum x) = done ++ piece :: later ∧
      (u.encodeTo (.ofCapacity capacity) x).1.kept =
        Writer.bytes done ++ (Utf8.encode piece).take (capacity - (Writer.bytes done).length) ∧
      (Writer.bytes done).length ≤ capacity ∧
      capacity < (Writer.bytes done).length + (Utf8.encode piece).length ∧
      ∀ others, (Sink.ofCapacity capacity).write (done ++ piece :: others) =
        ((u.encodeTo (.ofCapacity capacity) x).1, false) := by
  have hfits := Sink.put_eq_true_iff (.ofCapacity capacity) (Utf8.encode (u.compactText x))
  have hfailed : (u.writeTo (.ofCapacity capacity) x).2 = false := by
    rw [writeTo_eq_put]
    exact Bool.eq_false_iff.mpr (fun hput => Nat.not_le.mpr h (hfits.mp hput))
  have hwrite : (Sink.ofCapacity capacity).write (Writer.compact (u.toDatum x)) =
      ((u.encodeTo (.ofCapacity capacity) x).1, false) := by
    rw [encodeTo_eq]
    exact Prod.ext rfl hfailed
  exact Sink.write_failed hwrite

/-- A sink keeps as much of the compact text as it has room for, and encoding fails where
this is not all.  It fails at the first piece of the text that does not fit, so what is
written behind that piece does not matter. -/
theorem bounded_encoding_keeps_beginning (u : Union α) (x : OneOf α) (capacity : Nat) :
    let text := Utf8.encode (u.compactText x)
    let encoded := u.encodeTo (.ofCapacity capacity) x
    encoded.1.kept = text.take capacity ∧
    encoded.1.room = capacity - text.length ∧
    (encoded.2 = .ok () ↔ text.length ≤ capacity) ∧
    ((encoded.2 = .ok () ∧ encoded.1.kept = text) ∨
      (encoded.2 = .error unwritten ∧ encoded.1.kept.length = capacity ∧
        ∃ done piece later, Writer.compact (u.toDatum x) = done ++ piece :: later ∧
          encoded.1.kept = Writer.bytes done
            ++ (Utf8.encode piece).take (capacity - (Writer.bytes done).length) ∧
          (Writer.bytes done).length ≤ capacity ∧
          capacity < (Writer.bytes done).length + (Utf8.encode piece).length ∧
          ∀ others, (Sink.ofCapacity capacity).write (done ++ piece :: others) =
            (encoded.1, false))) := by
  intro text encoded
  have hsink : encoded.1 = ⟨text.take capacity, capacity - text.length⟩ :=
    u.encodeTo_fst capacity x
  have houtcome : encoded.2 = if text.length ≤ capacity then .ok () else .error unwritten :=
    u.encodeTo_snd capacity x
  have hkept : encoded.1.kept = text.take capacity := congrArg Sink.kept hsink
  refine ⟨hkept, congrArg Sink.room hsink, ?_, ?_⟩
  · rw [houtcome]
    by_cases h : text.length ≤ capacity
    · rw [if_pos h]
      exact iff_of_true rfl h
    · rw [if_neg h]
      exact iff_of_false nofun h
  · rw [houtcome]
    by_cases h : text.length ≤ capacity
    · left
      rw [if_pos h, hkept, List.take_of_length_le h]
      exact ⟨rfl, rfl⟩
    · right
      rw [if_neg h]
      refine ⟨rfl, ?_, writeTo_stops (Nat.not_le.mp h)⟩
      rw [hkept, List.length_take]
      omega

/-- The cut falls inside the escape of the line break. -/
example :
    (tracked.encodeTo (.ofCapacity 11) (.holding ⟨"a\nb"⟩)).1.kept =
      Utf8.encode "\x7b\"name\":\"a\\" := by
  decide +kernel

end Untagged.Union
