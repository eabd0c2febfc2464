import Untagged.Json.Sink
import Untagged.Proofs.Json.Quoted

/-!
# Writing into bounded space

A sink takes pieces one after the other, but what it keeps does not show where one
piece ends and the next begins: it keeps as many of all their bytes as there is room
for (`write_eq_put`).  A writing that fails stops at the first piece that does not
fit, whatever pieces stand behind it (`write_failed`).
-/

namespace Untagged.Sink

/-- Some bytes and then others are put as all of them together. -/
theorem put_append (sink : Sink) (a b : Bytes) :
    sink.put (a ++ b) =
      if (sink.put a).2 = true then (sink.put a).1.put b else ((sink.put a).1, false) := by
  by_cases ha : a.length ≤ sink.room
  · have hput : sink.put a = (⟨sink.kept ++ a, sink.room - a.length⟩, true) := if_pos ha
    rw [hput, if_pos rfl, put, put, List.length_append, List.append_assoc, Nat.sub_sub]
    by_cases hb : a.length + b.length ≤ sink.room
    · rw [if_pos hb, if_pos (show b.length ≤ sink.room - a.length by omega)]
    · rw [if_neg hb, if_neg (show ¬ b.length ≤ sink.room - a.length by omega),
        List.take_append, List.take_of_length_le ha, List.append_assoc]
  · have hput : sink.put a = (⟨sink.kept ++ a.take sink.room, 0⟩, false) := if_neg ha
    have hab : ¬ (a ++ b).length ≤ sink.room := by
      rw [List.length_append]
      omega
    rw [hput, if_neg Bool.false_ne_true, put, if_neg hab,
      List.take_append_of_le_length (by omega)]

/-- Pieces are written as their bytes are put. -/
theorem write_eq_put (sink : Sink) (pieces : List String) :
    sink.write pieces = sink.put (Writer.bytes pieces) := by
  induction pieces generalizing sink with
  | nil => simp [write, Writer.bytes_nil, put]
  | cons p ps ih =>
    rw [write, Writer.bytes_cons, put_append]
    rcases sink.put (Utf8.encode p) with ⟨next, fits⟩
    cases fits with
    | true => exact ih next
    | false => rfl

theorem put_eq_true_iff (sink : Sink) (bytes : Bytes) :
    (sink.put bytes).2 = true ↔ bytes.length ≤ sink.room := by
  by_cases h : bytes.length ≤ sink.room
  · rw [put, if_pos h]
    exact iff_of_true rfl h
  · rw [put, if_neg h]
    exact iff_of_false Bool.false_ne_true h

/-- What a sink of some capacity keeps, and how much room is left. -/
theorem put_ofCapacity (capacity : Nat) (bytes : Bytes) :
    ((ofCapacity capacity).put bytes).1 = ⟨bytes.take capacity, capacity - bytes.length⟩ := by
  by_cases h : bytes.length ≤ capacity
  · have hput : (ofCapacity capacity).put bytes = (⟨bytes, capacity - bytes.length⟩, true) :=
      if_pos h
    rw [hput, List.take_of_length_le h]
  · have hput : (ofCapacity capacity).put bytes = (⟨bytes.take capacity, 0⟩, false) := if_neg h
    have hroom : capacity - bytes.length = 0 := by omega
    rw [hput, hroom]

/-- A writing that fails has written whole pieces and the beginning of one that does not
fit; the pieces behind that one change nothing. -/
theorem write_failed {sink stopped : Sink} {pieces : List String}
    (h : sink.write pieces = (stopped, false)) :
    ∃ done piece later, pieces = done ++ piece :: later ∧
      stopped.kept = sink.kept ++ Writer.bytes done
        ++ (Utf8.encode piece).take (sink.room - (Writer.bytes done).length) ∧
      (Writer.bytes done).length ≤ sink.room ∧
      sink.room < (Writer.bytes done).length + (Utf8.encode piece).length ∧
      ∀ others, sink.write (done ++ piece :: others) = (stopped, false) := by
  induction pieces generalizing sink with
  | nil => exact Bool.noConfusion (congrArg Prod.snd h)
  | cons piece pieces ih =>
    by_cases hfits : (Utf8.encode piece).length ≤ sink.room
    · have hput : sink.put (Utf8.encode piece) =
          (⟨sink.kept ++ Utf8.encode piece, sink.room - (Utf8.encode piece).length⟩, true) :=
        if_pos hfits
      have hstep : ∀ others, sink.write (piece :: others) =
          Sink.write ⟨sink.kept ++ Utf8.encode piece, sink.room - (Utf8.encode piece).length⟩
            others := by
        intro others
        rw [write, hput]
      rw [hstep] at h
      obtain ⟨done, stop, later, hpieces, hkept, hdone, hstop, hothers⟩ := ih h
      dsimp only at hkept hdone hstop
      refine ⟨piece :: done, stop, later, ?_, ?_, ?_, ?_, ?_⟩
      · rw [hpieces, List.cons_append]
      · rw [hkept, Writer.bytes_cons, List.length_append, Nat.sub_sub,
          List.append_assoc sink.kept]
      · rw [Writer.bytes_cons, List.length_append]
        omega
      · rw [Writer.bytes_cons, List.length_append]
        omega
      · intro others
        rw [List.cons_append, hstep, hothers]
    · have hput : sink.put (Utf8.encode piece) =
          (⟨sink.kept ++ (Utf8.encode piece).take sink.room, 0⟩, false) := if_neg hfits
      have hstep : ∀ others, sink.write (piece :: others) =
          (⟨sink.kept ++ (Utf8.encode piece).take sink.room, 0⟩, false) := by
        intro others
        rw [write, hput]
      have hstopped : stopped = ⟨sink.kept ++ (Utf8.encode piece).take sink.room, 0⟩ := by
        rw [hstep] at h
        exact (congrArg Prod.fst h).symm
      refine ⟨[], piece, pieces, rfl, ?_, Nat.zero_le _, ?_, ?_⟩
      · rw [hstopped, Writer.bytes_nil, List.append_nil, List.length_nil, Nat.sub_zero]
      · rw [Writer.bytes_nil, List.length_nil]
        omega
      · intro others
        rw [hstopped]
        exact hstep others

end Untagged.Sink
