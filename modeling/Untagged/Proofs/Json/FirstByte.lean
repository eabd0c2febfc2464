import Untagged.Proofs.Json.Consumed

/-!
# The first byte of a value

The first byte that is no white space decides what a value is and which reader reads
it.  `ReadFrom` has one case for each, and a value is read in one of these
ways (`readFrom_of_value`).
-/

namespace Untagged.Json.Reader

/-- The value that is read from its first byte and the bytes behind it, and what is
left then. -/
inductive ReadFrom (inner : Option (Bytes → Except Fault (Read Json))) :
    UInt8 → Bytes → Json → Bytes → Prop
  | null {r rest : Bytes} (h : keyword [117, 108, 108] r = .ok rest) :
    ReadFrom inner 110 r .null rest
  | true {r rest : Bytes} (h : keyword [114, 117, 101] r = .ok rest) :
    ReadFrom inner 116 r (.boolean true) rest
  | false {r rest : Bytes} (h : keyword [97, 108, 115, 101] r = .ok rest) :
    ReadFrom inner 102 r (.boolean false) rest
  | negative {r rest : Bytes} {n : Number} (h : Reader.number true r = .ok (n, rest)) :
    ReadFrom inner 45 r (.number n) rest
  | natural {b : UInt8} {r rest : Bytes} {n : Number} (hb : isDigit b = true)
    (h : Reader.number false (b :: r) = .ok (n, rest)) : ReadFrom inner b r (.number n) rest
  | string {r rest : Bytes} {text : String} (h : Reader.string r = .ok (text, rest)) :
    ReadFrom inner 34 r (.string text) rest
  | array {r rest : Bytes} {item : Bytes → Except Fault (Read Json)} {vs : List Json}
    (hinner : inner = some item) (h : sequence item r = .ok (vs, rest)) :
    ReadFrom inner 91 r (.array vs) rest
  | object {r rest : Bytes} {item : Bytes → Except Fault (Read Json)}
    {pairs : List (String × Json)} (hinner : inner = some item)
    (h : membership item r = .ok (pairs, rest)) :
    ReadFrom inner 123 r (.object (collect pairs)) rest

variable {inner : Option (Bytes → Except Fault (Read Json))} {s rest : Bytes} {v : Json}

theorem readFrom_of_valueOver (h : valueOver inner s = .ok (v, rest)) :
    ∃ b r, skipBlanks s = b :: r ∧ ReadFrom inner b r v rest := by
  rw [valueOver] at h
  cases hs : skipBlanks s with
  | nil =>
    rw [hs] at h
    cases h
  | cons b r =>
    refine ⟨b, r, rfl, ?_⟩
    rw [hs] at h
    -- The reader asks for one first byte after the other.
    by_cases hnull : b = 110
    · simp only [if_pos hnull, bind_eq_ok] at h
      obtain ⟨t, ht, h⟩ := h
      cases h
      exact hnull ▸ .null ht
    simp only [if_neg hnull] at h
    by_cases htrue : b = 116
    · simp only [if_pos htrue, bind_eq_ok] at h
      obtain ⟨t, ht, h⟩ := h
      cases h
      exact htrue ▸ .true ht
    simp only [if_neg htrue] at h
    by_cases hfalse : b = 102
    · simp only [if_pos hfalse, bind_eq_ok] at h
      obtain ⟨t, ht, h⟩ := h
      cases h
      exact hfalse ▸ .false ht
    simp only [if_neg hfalse] at h
    by_cases hminus : b = 45
    · simp only [if_pos hminus, bind_eq_ok] at h
      obtain ⟨⟨n, t⟩, ht, h⟩ := h
      cases h
      exact hminus ▸ .negative ht
    simp only [if_neg hminus] at h
    by_cases hdigit : isDigit b = true
    · simp only [if_pos hdigit, bind_eq_ok] at h
      obtain ⟨⟨n, t⟩, ht, h⟩ := h
      cases h
      exact .natural hdigit ht
    simp only [if_neg hdigit] at h
    by_cases hquote : b = 34
    · simp only [if_pos hquote, bind_eq_ok] at h
      obtain ⟨⟨text, t⟩, ht, h⟩ := h
      cases h
      exact hquote ▸ .string ht
    simp only [if_neg hquote] at h
    by_cases hbracket : b = 91
    · simp only [if_pos hbracket] at h
      cases inner with
      | none => cases h
      | some item =>
        simp only [bind_eq_ok, inContainer_eq_ok] at h
        obtain ⟨⟨items, t⟩, ht, h⟩ := h
        cases h
        exact hbracket ▸ .array rfl ht
    simp only [if_neg hbracket] at h
    by_cases hbrace : b = 123
    · simp only [if_pos hbrace] at h
      cases inner with
      | none => cases h
      | some item =>
        simp only [bind_eq_ok, inContainer_eq_ok] at h
        obtain ⟨⟨pairs, t⟩, ht, h⟩ := h
        cases h
        exact hbrace ▸ .object rfl ht
    simp only [if_neg hbrace] at h
    cases h

theorem value_eq_valueOver (levels : Nat) : ∃ inner, value levels = valueOver inner := by
  cases levels with
  | zero => exact ⟨_, rfl⟩
  | succ levels => exact ⟨_, rfl⟩

theorem readFrom_of_value {levels : Nat} (h : value levels s = .ok (v, rest)) :
    ∃ inner b r, skipBlanks s = b :: r ∧ ReadFrom inner b r v rest := by
  obtain ⟨inner, hvalue⟩ := value_eq_valueOver levels
  rw [hvalue] at h
  exact ⟨inner, readFrom_of_valueOver h⟩

theorem skipBlanks_skipBlanks (s : Bytes) : skipBlanks (skipBlanks s) = skipBlanks s := by
  induction s with
  | nil => rfl
  | cons b s ih =>
    by_cases hb : isBlank b = true
    · rw [skipBlanks, if_pos hb, ih]
    · rw [skipBlanks, if_neg hb, skipBlanks, if_neg hb]

/-- White space in front of a value does not matter. -/
theorem value_skipBlanks (levels : Nat) (s : Bytes) :
    value levels (skipBlanks s) = value levels s := by
  cases levels <;> rw [value, valueOver, valueOver, skipBlanks_skipBlanks]

end Untagged.Json.Reader
