import Untagged.Json.Skip
import Untagged.Proofs.Json.IntegerLiteral

/-!
# What is passed over

A value that is only passed over is left at the same place as one that is read.  That
holds for truth values, strings and integers (`skip_of_value`).  A pair of surrogates
is read as one escape and passed over as two, so strings are compared from one whole
escape to the next.
-/

namespace Untagged.Json.Skip

open Reader

/-! ## Strings -/

/-- An escape is passed over as it is read, or as two escapes by numbers. -/
theorem escape_of_escape {s t bytes : Bytes} (h : Reader.escape s = .ok (bytes, t)) :
    escape s = .ok t ∨ ∃ u v n, escape s = .ok u ∧ u = 92 :: 117 :: v ∧
      hexEscape v = .ok (n, t) ∧ u.length ≤ s.length := by
  cases s with
  | nil => cases h
  | cons letter r =>
    rw [Reader.escape] at h
    rw [escape]
    cases hshort : shortEscape? letter with
    | some b =>
      rw [hshort] at h
      cases h
      exact .inl rfl
    | none =>
      rw [hshort] at h
      by_cases hu : letter = 117
      · simp only [if_pos hu] at h
        simp only [Option.isSome_none, Bool.false_eq_true, if_false, if_pos hu]
        rw [unicodeEscape, bind_eq_ok] at h
        obtain ⟨⟨n, u⟩, hfirst, h⟩ := h
        have hlength := (hexEscape_passes hfirst).length_le
        simp only at h
        rw [hfirst]
        split at h
        · cases h
        · split at h
          · simp only [bind_eq_ok] at h
            obtain ⟨w, hslash, v, hletter, ⟨m, t'⟩, hsecond, h⟩ := h
            split at h
            · obtain ⟨-, rfl⟩ := Prod.mk.inj (Except.ok.inj h)
              obtain ⟨rfl, -⟩ := pairByte_reads hslash
              obtain ⟨rfl, -⟩ := pairByte_reads hletter
              exact .inr ⟨_, v, m, rfl, rfl, hsecond, Nat.le_succ_of_le hlength⟩
            · cases h
          · obtain ⟨-, rfl⟩ := Prod.mk.inj (Except.ok.inj h)
            exact .inl rfl
      · simp only [if_neg hu] at h
        cases h

theorem stringFrom_slash {s t : Bytes} (h : escape s = .ok t) (fuel : Nat) :
    stringFrom (fuel + 1) (92 :: s) = stringFrom fuel t := by
  rw [stringFrom, if_neg (by decide), if_pos rfl, h]
  rfl

theorem stringFrom_of_stringBytesFrom {fuel : Nat} {s bytes rest : Bytes}
    (h : stringBytesFrom fuel s = .ok (bytes, rest)) {fuel' : Nat} (hfuel' : s.length ≤ fuel') :
    stringFrom fuel' s = .ok rest := by
  induction fuel generalizing s bytes fuel' with
  | zero => cases s <;> cases h
  | succ fuel ih =>
    cases s with
    | nil => cases h
    | cons b s =>
      rw [List.length_cons] at hfuel'
      obtain ⟨k, rfl⟩ : ∃ k, fuel' = k + 1 := ⟨fuel' - 1, by omega⟩
      rw [stringBytesFrom] at h
      by_cases hquote : b = 34
      · rw [if_pos hquote] at h
        cases h
        rw [stringFrom, if_pos hquote]
      rw [if_neg hquote] at h
      by_cases hslash : b = 92
      · simp only [if_pos hslash, bind_eq_ok] at h
        obtain ⟨⟨escaped, t⟩, ht, ⟨more, t'⟩, hmore, h⟩ := h
        cases h
        change stringBytesFrom fuel t = _ at hmore
        have hle := (escape_passes ht).1.length_le
        rw [hslash]
        rcases escape_of_escape ht with hskip | ⟨u, v, n, hskip, rfl, hsecond, hu⟩
        · rw [stringFrom_slash hskip]
          exact ih hmore (by omega)
        · have hsecond' : escape (117 :: v) = .ok t := by
            rw [escape, if_neg (by decide), if_pos rfl, hsecond]
            rfl
          have hv := (hexEscape_passes hsecond).length_le
          simp only [List.length_cons] at hu
          obtain ⟨k, rfl⟩ : ∃ j, k = j + 1 := ⟨k - 1, by omega⟩
          rw [stringFrom_slash hskip, stringFrom_slash hsecond']
          exact ih hmore (by omega)
      rw [if_neg hslash] at h
      by_cases hcontrol : b < 32
      · rw [if_pos hcontrol] at h
        cases h
      rw [if_neg hcontrol, bind_eq_ok] at h
      obtain ⟨⟨more, t⟩, hmore, h⟩ := h
      cases h
      rw [stringFrom, if_neg hquote, if_neg hslash, if_neg hcontrol]
      exact ih hmore (by omega)

theorem string_of_string {s rest : Bytes} {text : String}
    (h : Reader.string s = .ok (text, rest)) : string s = .ok rest := by
  rw [Reader.string, bind_eq_ok] at h
  obtain ⟨⟨bytes, t⟩, ht, h⟩ := h
  simp only at h
  split at h
  · cases h
    exact stringFrom_of_stringBytesFrom ht (Nat.le_refl _)
  · cases h

/-! ## Integers -/

theorem number_of_whole {cs : List Char} (h : Whole cs) {rest : Bytes} (hrest : Stops rest) :
    number (cs.map charByte ++ rest) = .ok rest := by
  have hafter : afterWhole rest = .ok rest := by
    cases rest with
    | nil => rfl
    | cons b r =>
      obtain ⟨-, hpoint, hmark⟩ := hrest
      rw [afterWhole, if_neg hpoint, optionalExponent, hmark]
      rfl
  obtain ⟨hdigits, rfl | ⟨c, r, rfl, hc⟩⟩ := h
  · cases rest with
    | nil => rfl
    | cons b r =>
      show (if isDigit b = true then _ else afterWhole (b :: r)) = _
      rw [hrest.1, if_neg (by decide), hafter]
  · rw [List.forall_mem_cons] at hdigits
    rw [List.map_cons, List.cons_append, number.eq_def]
    simp only [if_neg (charByte_ne_zero hdigits.1 hc), isDigit_charByte hdigits.1, if_true,
      spanDigits_append (isDigit_of_mem_map hdigits.2) hrest.not_isDigit]
    exact hafter

theorem number_of_number {negative : Bool} {s rest : Bytes} {i : Integer}
    (h : Reader.number negative s = .ok (.integer i, rest)) : number s = .ok rest := by
  obtain ⟨cs, hwhole, rfl, hstops, -⟩ := number_integer h
  exact number_of_whole hwhole hstops

/-! ## Values -/

/-- The values that a configuration may hold beside its own. -/
def IsPlain : Json → Prop
  | .boolean _ | .string _ | .number (.integer _) => True
  | _ => False

theorem valueOver_of_value {levels : Nat} {s rest : Bytes} {v : Json} (hv : IsPlain v)
    (h : Reader.value levels s = .ok (v, rest)) (inner : Bytes → Except Fault Bytes) :
    valueOver inner s = .ok rest := by
  obtain ⟨readInner, b, r, hs, hfrom⟩ := readFrom_of_value h
  rw [valueOver, hs]
  cases hfrom with
  | null => exact hv.elim
  | true h => exact h
  | false h => exact h
  | @negative _ _ n h =>
    cases n with
    | integer i => exact number_of_number h
    | float x => exact hv.elim
  | @natural _ _ _ n hb h =>
    cases n with
    | integer i =>
      have ne {c : UInt8} (hc : isDigit c = false) : ¬ b = c := ne_of_isDigit hb hc
      simp only [hb, if_true, if_neg (ne (c := 110) (by decide)),
        if_neg (ne (c := 116) (by decide)), if_neg (ne (c := 102) (by decide)),
        if_neg (ne (c := 45) (by decide))]
      exact number_of_number h
    | float x => exact hv.elim
  | string h => exact string_of_string h
  | array => exact hv.elim
  | object => exact hv.elim

theorem skip_of_value {levels : Nat} {s rest : Bytes} {v : Json} (hv : IsPlain v)
    (h : Reader.value levels s = .ok (v, rest)) : value s = .ok rest := by
  rw [value]
  cases s.length with
  | zero => exact valueOver_of_value hv h _
  | succ n => exact valueOver_of_value hv h _

end Untagged.Json.Skip
