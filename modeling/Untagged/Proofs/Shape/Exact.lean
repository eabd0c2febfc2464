import Mathlib.Data.List.Forall2
import Untagged.Proofs.Shape.Restored

/-!
# What scalars and lists are read from

The shapes of scalars and lists read exactly one form each: a string a string, a 64-bit
integer an integer in its range, and a list an array whose items are all read.
-/

namespace Untagged.Shape

variable {α : Type} {v : Json}

theorem string_decode_eq_ok_iff {s : String} :
    (Shape.string.decode v).outcome = .ok s ↔ v = .string s := by
  cases v with
  | string r =>
    show Except.ok r = Except.ok s ↔ _
    rw [Except.ok.injEq, Json.string.injEq]
  | _ => exact ⟨nofun, nofun⟩

theorem double_decode_eq_ok_iff {x : Double} :
    (Shape.double.decode v).outcome = .ok x ↔ ∃ n : Number, v = .number n ∧ n.toDouble = x := by
  cases v with
  | number n =>
    constructor
    · intro h
      exact ⟨n, rfl, Except.ok.inj h⟩
    · intro h
      obtain ⟨k, hk, rfl⟩ := h
      cases hk
      rfl
  | _ =>
    constructor
    · intro h
      cases h
    · intro h
      obtain ⟨n, hn, -⟩ := h
      cases hn

theorem toInt_ofInt_of_range {k : Int} (hlower : -0x8000_0000_0000_0000 ≤ k)
    (hupper : k ≤ 0x7fff_ffff_ffff_ffff) : (Int64.ofInt k).toInt = k :=
  Int64.toInt_ofInt_of_le hlower (by omega)

theorem int64?_eq_some_iff {k : Int} {i : Int64} : int64? k = some i ↔ k = i.toInt := by
  constructor
  · intro h
    rw [int64?] at h
    split at h
    · next hk =>
      cases h
      exact (toInt_ofInt_of_range hk.1 hk.2).symm
    · cases h
  · intro h
    rw [h, int64?_toInt]

theorem int64_decode_eq_ok_iff {i : Int64} :
    (Shape.int64.decode v).outcome = .ok i ↔ v = .number (.integer (.ofInt64 i)) := by
  constructor
  · intro h
    cases v with
    | number n =>
      cases n with
      | integer k =>
        change (decodeInteger .int64 int64? (.number (.integer k))).outcome = .ok i at h
        rw [decodeInteger] at h
        split at h
        · next j hj =>
          cases h
          obtain ⟨k, hlower, hupper⟩ := k
          obtain rfl : k = i.toInt := int64?_eq_some_iff.mp hj
          rfl
        · cases h
      | float x => cases h
    | _ => cases h
  · intro h
    rw [h]
    exact int64_restores i

/-- The integers in range are the 64-bit ones. -/
theorem exists_toInt_iff {k : Int} :
    (∃ i : Int64, k = i.toInt) ↔ -0x8000_0000_0000_0000 ≤ k ∧ k ≤ 0x7fff_ffff_ffff_ffff := by
  constructor
  · intro h
    obtain ⟨i, rfl⟩ := h
    have hlower := i.le_toInt
    have hupper := i.toInt_lt
    exact ⟨by omega, by omega⟩
  · intro h
    exact ⟨Int64.ofInt k, (toInt_ofInt_of_range h.1 h.2).symm⟩

theorem decodeItems_eq_ok_iff {decode : Json → Attempt Rejection α} {vs : List Json}
    {as : List α} : (decodeItems decode vs).outcome = .ok as ↔
      List.Forall₂ (fun v a => (decode v).outcome = .ok a) vs as := by
  induction vs generalizing as with
  | nil =>
    rw [List.forall₂_nil_left_iff]
    show Except.ok [] = Except.ok as ↔ _
    rw [Except.ok.injEq]
    exact eq_comm
  | cons v vs ih =>
    rw [decodeItems, Attempt.outcome_andThen_eq_ok, List.forall₂_cons_left_iff]
    simp only [Attempt.outcome_map_eq_ok, ih]
    constructor
    · intro h
      obtain ⟨a, ha, bs, hbs, rfl⟩ := h
      exact ⟨a, bs, ha, hbs, rfl⟩
    · intro h
      obtain ⟨a, bs, ha, hbs, rfl⟩ := h
      exact ⟨a, ha, bs, hbs, rfl⟩

theorem list_decode_eq_ok_iff {item : Shape α} {as : List α} :
    ((Shape.list item).decode v).outcome = .ok as ↔
      ∃ vs, v = .array vs ∧ List.Forall₂ (fun v a => (item.decode v).outcome = .ok a) vs as := by
  cases v with
  | array vs =>
    show (decodeItems item.decode vs).outcome = .ok as ↔ _
    rw [decodeItems_eq_ok_iff]
    constructor
    · intro h
      exact ⟨vs, rfl, h⟩
    · intro h
      obtain ⟨ws, heq, h⟩ := h
      cases heq
      exact h
  | _ =>
    constructor
    · intro h
      cases h
    · intro h
      obtain ⟨ws, heq, -⟩ := h
      cases heq

end Untagged.Shape
