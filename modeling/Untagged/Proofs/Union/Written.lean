import Untagged.Proofs.Json.ReadBack
import Untagged.Proofs.Json.Sink
import Untagged.Union.Codec

/-!
# Documents that a union has written

The compact text, the pretty text and the bytes in a sink with room for them all
stand for the same JSON value, so what a union decodes from them is what it decodes
from that value.
-/

namespace Untagged.Union

variable {α : Type} {u : Union α} {x : OneOf α}

theorem decodeText_compactText (h : (u.toDatum x).Legible Json.Reader.maxDepth) :
    u.decodeText (u.compactText x) = u.decode (u.toJson x) := by
  rw [decodeText, compactText, Json.ofText_compactText h]
  rfl

theorem decodeText_prettyText (h : (u.toDatum x).Legible Json.Reader.maxDepth) :
    u.decodeText (u.prettyText x) = u.decode (u.toJson x) := by
  rw [decodeText, prettyText, Json.ofText_prettyText h]
  rfl

/-- From what is written for `x`, as a JSON value or as text, `y` is read back. -/
structure ReadsBack (u : Union α) (x y : OneOf α) : Prop where
  value : (u.decode (u.toJson x)).outcome = .ok y
  compact : (u.decodeText (u.compactText x)).outcome = .ok y
  pretty : (u.decodeText (u.prettyText x)).outcome = .ok y

theorem ReadsBack.of_value {y : OneOf α} (h : (u.toDatum x).Legible Json.Reader.maxDepth)
    (hvalue : (u.decode (u.toJson x)).outcome = .ok y) : u.ReadsBack x y where
  value := hvalue
  compact := by rw [decodeText_compactText h, hvalue]
  pretty := by rw [decodeText_prettyText h, hvalue]

/-- A value is written as the bytes of its compact text are put. -/
theorem writeTo_eq_put (u : Union α) (sink : Sink) (x : OneOf α) :
    u.writeTo sink x = sink.put (Utf8.encode (u.compactText x)) := by
  have hbytes : Writer.bytes (Writer.compact (u.toDatum x)) = Utf8.encode (u.compactText x) :=
    (Utf8.encode_join _).symm
  rw [writeTo, Sink.write_eq_put, hbytes]

/-- Whatever a sink holds already, it takes the compact text of a value that fits. -/
theorem writeTo_of_room (u : Union α) (x : OneOf α) (kept : Bytes) (spare : Nat) :
    u.writeTo ⟨kept, (Utf8.encode (u.compactText x)).length + spare⟩ x =
      (⟨kept ++ Utf8.encode (u.compactText x), spare⟩, true) := by
  have hfits : (Utf8.encode (u.compactText x)).length ≤
      (Utf8.encode (u.compactText x)).length + spare := Nat.le_add_right _ _
  rw [writeTo_eq_put, Sink.put]
  simp only [if_pos hfits, Nat.add_sub_cancel_left]

/-- A sink with room for the compact text takes its bytes and no others. -/
theorem writeTo_of_le {capacity : Nat}
    (h : (Utf8.encode (u.compactText x)).length ≤ capacity) :
    u.writeTo (.ofCapacity capacity) x =
      (⟨Utf8.encode (u.compactText x), capacity - (Utf8.encode (u.compactText x)).length⟩,
        true) := by
  obtain ⟨spare, rfl⟩ := Nat.exists_eq_add_of_le h
  rw [Nat.add_sub_cancel_left]
  exact writeTo_of_room u x [] spare

theorem decodeBytes_compactText (h : (u.toDatum x).Legible Json.Reader.maxDepth) :
    u.decodeBytes (Utf8.encode (u.compactText x)) = u.decode (u.toJson x) :=
  decodeText_compactText h

end Untagged.Union
