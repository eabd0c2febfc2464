import Mathlib.Data.List.Forall2
import Mathlib.Data.List.Perm.Subperm
import Untagged.Proofs.Json.Members

/-!
# Equality up to the order of members

What `Json.same` says of two values: they are of one form (`SameForm`), arrays are
equal item by item, and objects with distinct names have the same names, under each
of which they have equal values (`lookup?_of_same`).
-/

namespace Untagged.Json

theorem sameItems_iff {vs ws : List Json} :
    sameItems vs ws = true ↔ List.Forall₂ (fun v w => same v w = true) vs ws := by
  induction vs generalizing ws with
  | nil =>
    cases ws with
    | nil => simp [sameItems]
    | cons w ws => simp [sameItems]
  | cons v vs ih =>
    cases ws with
    | nil => simp [sameItems]
    | cons w ws => rw [sameItems, Bool.and_eq_true, ih, List.forall₂_cons]

theorem sameMembers_iff {ms ns : List (String × Json)} :
    sameMembers ms ns = true ↔
      ∀ m ∈ ms, ∃ w, lookup? m.1 ns = some w ∧ same m.2 w = true := by
  induction ms with
  | nil => simp [sameMembers]
  | cons m ms ih =>
    obtain ⟨name, v⟩ := m
    rw [sameMembers, Bool.and_eq_true, ih, List.forall_mem_cons]
    refine and_congr_left fun _ => ?_
    cases lookup? name ns with
    | none => simp
    | some w => simp

/-- The forms that two equal values may have. -/
inductive SameForm : Json → Json → Prop
  | null : SameForm .null .null
  | boolean (b : Bool) : SameForm (.boolean b) (.boolean b)
  | integer (i : Integer) : SameForm (.number (.integer i)) (.number (.integer i))
  | float {x y : FiniteDouble} (h : x.val.equal y.val = true) :
    SameForm (.number (.float x)) (.number (.float y))
  | string (s : String) : SameForm (.string s) (.string s)
  | array {vs ws : List Json} (h : List.Forall₂ (fun v w => same v w = true) vs ws) :
    SameForm (.array vs) (.array ws)
  | object {ms ns : List (String × Json)} (h : same (.object ms) (.object ns) = true) :
    SameForm (.object ms) (.object ns)

theorem sameForm_of_same {v w : Json} (h : same v w = true) : SameForm v w := by
  have hvw := h
  unfold same at h
  split at h
  · exact .null
  · rw [beq_iff_eq] at h
    rw [h]
    exact .boolean _
  · rw [beq_iff_eq] at h
    rw [h]
    exact .integer _
  · exact .float h
  · rw [beq_iff_eq] at h
    rw [h]
    exact .string _
  · exact .array (sameItems_iff.mp h)
  · exact .object hvw
  · cases h

theorem SameForm.kind_eq {v w : Json} (h : SameForm v w) : v.kind = w.kind := by
  cases h <;> rfl

/-- Equal objects have the same names. -/
theorem names_perm_of_same {ms ns : List (String × Json)} (hms : (ms.map Prod.fst).Nodup)
    (h : same (object ms) (object ns) = true) :
    (ms.map Prod.fst).Perm (ns.map Prod.fst) := by
  rw [same, Bool.and_eq_true, beq_iff_eq, sameMembers_iff] at h
  have hsubset : ms.map Prod.fst ⊆ ns.map Prod.fst := by
    intro name hname
    obtain ⟨m, hm, rfl⟩ := List.mem_map.mp hname
    obtain ⟨w, hw, -⟩ := h.2 m hm
    exact List.mem_map.mpr ⟨(m.1, w), mem_of_lookup? hw, rfl⟩
  refine (List.subperm_of_subset hms hsubset).perm_of_length_le ?_
  rw [List.length_map, List.length_map]
  exact Nat.le_of_eq h.1.symm

/-- Equal objects have equal values under each name. -/
theorem lookup?_of_same {ms ns : List (String × Json)} (hms : (ms.map Prod.fst).Nodup)
    (h : same (object ms) (object ns) = true) (name : String) :
    Option.Rel (fun v w => same v w = true) (lookup? name ms) (lookup? name ns) := by
  have hnames := names_perm_of_same hms h
  cases hv : lookup? name ms with
  | none =>
    have hnone : lookup? name ns = none := by
      rw [lookup?_eq_none_iff] at hv ⊢
      exact fun hmem => hv (hnames.mem_iff.mpr hmem)
    rw [hnone]
    exact .none
  | some v =>
    rw [same, Bool.and_eq_true, sameMembers_iff] at h
    obtain ⟨w, hw, hvw⟩ := h.2 (name, v) (mem_of_lookup? hv)
    rw [hw]
    exact .some hvw

end Untagged.Json
