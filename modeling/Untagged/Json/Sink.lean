import Untagged.Json.Fault
import Untagged.Json.Writer
import Untagged.Text.Utf8

/-!
# Writing into bounded space

A `Sink` keeps the bytes written to it as long as they fit.  A piece that does not
fit leaves its first bytes behind, as many as there is room for, and the writing
stops there.
-/

namespace Untagged

/-- The bytes written so far and how many more fit. -/
structure Sink where
  kept : Bytes
  room : Nat

namespace Sink

def ofCapacity (capacity : Nat) : Sink := ⟨[], capacity⟩

/-- Writes some bytes: the sink with as many of them as fit, and whether that was
all. -/
def put (sink : Sink) (bytes : Bytes) : Sink × Bool :=
  if bytes.length ≤ sink.room then (⟨sink.kept ++ bytes, sink.room - bytes.length⟩, true)
  else (⟨sink.kept ++ bytes.take sink.room, 0⟩, false)

/-- Writes pieces of text one after the other, up to the first that does not
fit. -/
def write (sink : Sink) : List String → Sink × Bool
  | [] => (sink, true)
  | piece :: pieces =>
    match sink.put (Utf8.encode piece) with
    | (next, true) => write next pieces
    | (next, false) => (next, false)

end Sink

end Untagged
