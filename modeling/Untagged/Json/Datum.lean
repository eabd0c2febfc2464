import Untagged.Json.Basic

/-!
# Data to be written

A `Datum` is what a value says about itself when it is written: the same tree
shapes as JSON, but with any binary64 number in it.  A number that JSON cannot
write becomes `null`, whether the datum is written as text or turned into a JSON
value (`Datum.toJson`).
-/

namespace Untagged

inductive Datum where
  | null
  | boolean (b : Bool)
  | integer (i : Integer)
  | float (x : Double)
  | string (s : String)
  | sequence (items : List Datum)
  | record (members : List (String × Datum))

namespace Datum

/-- A float of a JSON value, where it is finite. -/
def floatToJson (x : Double) : Json :=
  match FiniteDouble.ofDouble? x with
  | some f => .number (.float f)
  | none => .null

theorem floatToJson_of_isFinite {x : Double} (h : x.isFinite = true) :
    floatToJson x = .number (.float ⟨x, h⟩) := by
  rw [floatToJson, FiniteDouble.ofDouble?, dif_pos h]

theorem floatToJson_of_not_isFinite {x : Double} (h : x.isFinite = false) :
    floatToJson x = .null := by
  rw [floatToJson, FiniteDouble.ofDouble?, dif_neg (by rw [h]; decide)]

mutual

/-- The JSON value that a datum is. -/
def toJson : Datum → Json
  | null => .null
  | boolean b => .boolean b
  | integer i => .number (.integer i)
  | float x => floatToJson x
  | string s => .string s
  | sequence items => .array (itemsToJson items)
  | record members => .object (membersToJson members)

def itemsToJson : List Datum → List Json
  | [] => []
  | d :: ds => toJson d :: itemsToJson ds

def membersToJson : List (String × Datum) → List (String × Json)
  | [] => []
  | (name, d) :: ds => (name, toJson d) :: membersToJson ds

end

mutual

/-- What a JSON value says about itself. -/
def ofJson : Json → Datum
  | .null => null
  | .boolean b => boolean b
  | .number (.integer i) => integer i
  | .number (.float x) => float x.val
  | .string s => string s
  | .array items => sequence (itemsOfJson items)
  | .object members => record (membersOfJson members)

def itemsOfJson : List Json → List Datum
  | [] => []
  | v :: vs => ofJson v :: itemsOfJson vs

def membersOfJson : List (String × Json) → List (String × Datum)
  | [] => []
  | (name, v) :: vs => (name, ofJson v) :: membersOfJson vs

end

theorem map_fst_membersToJson (ds : List (String × Datum)) :
    (membersToJson ds).map Prod.fst = ds.map Prod.fst := by
  induction ds with
  | nil => rfl
  | cons m ds ih =>
    obtain ⟨name, d⟩ := m
    rw [membersToJson, List.map_cons, List.map_cons, ih]

end Datum

end Untagged
