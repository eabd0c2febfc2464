import Untagged.Proofs.Json.FirstByte
import Untagged.Proofs.Json.Listed

/-!
# Integer literals

An integer literal is a number without fraction and exponent that is not minus zero:
digits without a superfluous zero in front, and perhaps a minus sign
(`IntegerLiteral`).  What is read as an integer is such a literal
(`integerLiteral_of_value`), and one whose value is in range is read as an integer
(`value_of_integerLiteral`): a fraction, an exponent, a digit too many and the zero
with a minus sign all make a float.
-/

namespace Untagged.Json.Reader

/-- The spelling of a whole number, and the number. -/
inductive IntegerLiteral : Bytes → Int → Prop
  | natural {cs : List Char} (h : Whole cs) :
    IntegerLiteral (cs.map charByte) (Nat.ofDigitChars 10 cs 0)
  | negative {cs : List Char} (h : Whole cs) (hzero : cs ≠ ['0']) :
    IntegerLiteral (45 :: cs.map charByte) (-(Nat.ofDigitChars 10 cs 0 : Int))

/-! ## What is a float -/

theorem floatNumber_isFloat {negative : Bool} {x : Option Double} {s rest : Bytes} {n : Number}
    (h : floatNumber negative x s = .ok (n, rest)) : ∃ f, n = .float f := by
  rw [floatNumber] at h
  split at h
  · next f hf =>
    cases h
    exact ⟨f, rfl⟩
  · cases h

theorem exponentDigits_isFloat {negative : Bool} {significand : Nat} {start : Int} {up : Bool}
    {exponent : Nat} {s rest : Bytes} {n : Number}
    (h : exponentDigits negative significand start up exponent s = .ok (n, rest)) :
    ∃ f, n = .float f := by
  induction s generalizing exponent with
  | nil => exact floatNumber_isFloat h
  | cons b s ih =>
    rw [exponentDigits] at h
    split at h
    · simp only at h
      split at h
      · exact ih h
      · split at h
        · cases h
        · exact floatNumber_isFloat h
    · exact floatNumber_isFloat h

theorem exponentPart_isFloat {negative : Bool} {significand : Nat} {start : Int}
    {s rest : Bytes} {n : Number} (h : exponentPart negative significand start s = .ok (n, rest)) :
    ∃ f, n = .float f := by
  rw [exponentPart] at h
  simp only at h
  split at h
  · cases h
  · split at h
    · exact exponentDigits_isFloat h
    · cases h

theorem fractionPart_isFloat {negative : Bool} {significand dropped : Nat} {s rest : Bytes}
    {n : Number} (h : fractionPart negative significand dropped s = .ok (n, rest)) :
    ∃ f, n = .float f := by
  rw [fractionPart] at h
  simp only at h
  split at h
  · cases h
  · split at h
    · exact floatNumber_isFloat h
    · split at h
      · exact exponentPart_isFloat h
      · exact floatNumber_isFloat h

/-! ## What is an integer -/

theorem val_of_ofInt? {k : Int} {i : Integer} (h : Integer.ofInt? k = some i) : i.val = k := by
  rw [Integer.ofInt?] at h
  split at h
  · cases h
    rfl
  · cases h

theorem wholeNumber_integer {negative : Bool} {significand : Nat} {s rest : Bytes} {i : Integer}
    (h : wholeNumber negative significand s = .ok (.integer i, rest)) :
    rest = s ∧ (i.val = if negative then -(significand : Int) else significand) ∧
      (negative = true → significand ≠ 0) := by
  refine ⟨wholeNumber_rest h, ?_⟩
  rw [wholeNumber] at h
  split at h
  · next n hn =>
    split at h
    · obtain ⟨f, hf⟩ := floatNumber_isFloat h
      cases hf
    · next hzero =>
      cases h
      refine ⟨val_of_ofInt? hn, fun hnegative => ?_⟩
      simpa [hnegative] using hzero
  · obtain ⟨f, hf⟩ := floatNumber_isFloat h
    cases hf

/-- An integer ends with its whole digits, and the significand holds all of them. -/
theorem afterWhole_integer {negative : Bool} {digits s rest : Bytes} {i : Integer}
    (h : afterWhole negative digits s = .ok (.integer i, rest)) :
    (∀ b ∈ s.head?, b ≠ 46 ∧ isExponentMark b = false) ∧
      ∃ significand, absorb 0 digits = (significand, []) ∧
        wholeNumber negative significand s = .ok (.integer i, rest) := by
  have plain : ∀ {t : Bytes},
      (if (absorb 0 digits).2.isEmpty then wholeNumber negative (absorb 0 digits).1 t
        else floatNumber negative
          (scaled? (absorb 0 digits).1 (absorb 0 digits).2.length) t) = .ok (.integer i, rest) →
      ∃ significand, absorb 0 digits = (significand, []) ∧
        wholeNumber negative significand t = .ok (.integer i, rest) := by
    intro t ht
    split at ht
    · next hunused => exact ⟨_, Prod.ext rfl (List.isEmpty_iff.mp hunused), ht⟩
    · obtain ⟨f, hf⟩ := floatNumber_isFloat ht
      cases hf
  rw [afterWhole] at h
  simp only at h
  cases s with
  | nil =>
    refine ⟨fun c hc => ?_, plain h⟩
    cases hc
  | cons b r =>
    simp only at h
    split at h
    · obtain ⟨f, hf⟩ := fractionPart_isFloat h
      cases hf
    · next hpoint =>
      split at h
      · obtain ⟨f, hf⟩ := exponentPart_isFloat h
        cases hf
      · next hmark =>
        refine ⟨fun c hc => ?_, plain h⟩
        cases hc
        exact ⟨hpoint, Bool.eq_false_iff.mpr hmark⟩

theorem absorb_eq_nil {cs : List Char} (hcs : ∀ c ∈ cs, c.isDigit = true) {m n : Nat}
    (h : absorb m (cs.map charByte) = (n, [])) : n = Nat.ofDigitChars 10 cs m := by
  induction cs generalizing m with
  | nil =>
    cases h
    rw [Nat.ofDigitChars_nil]
  | cons c cs ih =>
    rw [List.forall_mem_cons] at hcs
    rw [List.map_cons, absorb, digitValue_charByte hcs.1] at h
    split at h
    · rw [Nat.ofDigitChars_cons]
      exact ih hcs.2 h
    · cases h

/-- The character of a digit's byte. -/
theorem exists_charByte {b : UInt8} (h : isDigit b = true) :
    ∃ c : Char, c.isDigit = true ∧ charByte c = b := by
  have htoNat : (Char.ofNat b.toNat).toNat = b.toNat := by
    have hb := b.toNat_lt
    rw [Char.ofNat, dif_pos (Or.inl (by omega))]
    rfl
  simp only [isDigit, Bool.and_eq_true, decide_eq_true_eq, UInt8.le_iff_toNat_le] at h
  refine ⟨Char.ofNat b.toNat, ?_, ?_⟩
  · simp only [Char.isDigit, ge_iff_le, Bool.and_eq_true, decide_eq_true_eq,
      UInt32.le_iff_toNat_le]
    show 48 ≤ (Char.ofNat b.toNat).toNat ∧ (Char.ofNat b.toNat).toNat ≤ 57
    rw [htoNat]
    exact h
  · rw [charByte, htoNat, UInt8.ofNat_toNat]

theorem exists_map_charByte {digits : Bytes} (h : ∀ b ∈ digits, isDigit b = true) :
    ∃ cs : List Char, (∀ c ∈ cs, c.isDigit = true) ∧ digits = cs.map charByte := by
  induction digits with
  | nil => exact ⟨[], nofun, rfl⟩
  | cons b digits ih =>
    rw [List.forall_mem_cons] at h
    obtain ⟨c, hc, rfl⟩ := exists_charByte h.1
    obtain ⟨cs, hcs, rfl⟩ := ih h.2
    exact ⟨c :: cs, List.forall_mem_cons.mpr ⟨hc, hcs⟩, rfl⟩

/-- A number begins with whole digits. -/
theorem number_eq_afterWhole {negative : Bool} {s rest : Bytes} {n : Number}
    (h : number negative s = .ok (n, rest)) :
    ∃ cs t, Whole cs ∧ s = cs.map charByte ++ t ∧ (∀ b ∈ t.head?, isDigit b = false) ∧
      afterWhole negative (cs.map charByte) t = .ok (n, rest) := by
  have zero : Whole ['0'] := ⟨List.forall_mem_singleton.mpr rfl, .inl rfl⟩
  cases s with
  | nil => cases h
  | cons b r =>
    rw [number.eq_def] at h
    dsimp only at h
    split at h
    · next hb =>
      subst hb
      split at h
      · split at h
        · cases h
        · next hd =>
          refine ⟨_, _, zero, rfl, fun c hc => ?_, h⟩
          cases hc
          exact Bool.eq_false_iff.mpr hd
      · refine ⟨_, _, zero, rfl, fun c hc => ?_, h⟩
        cases hc
    · next hzero =>
      split at h
      · next hb =>
        obtain ⟨hr, hdigits, hbehind⟩ := spanDigits_reads r
        obtain ⟨c, hc, rfl⟩ := exists_charByte hb
        obtain ⟨cs, hcs, hspan⟩ := exists_map_charByte hdigits
        have hwhole : Whole (c :: cs) := by
          refine ⟨List.forall_mem_cons.mpr ⟨hc, hcs⟩, .inr ⟨c, cs, rfl, ?_⟩⟩
          intro heq
          exact hzero (heq ▸ rfl)
        rw [hspan] at h hr
        exact ⟨c :: cs, _, hwhole, by rw [List.map_cons, List.cons_append, ← hr], hbehind, h⟩
      · cases h

theorem number_integer {negative : Bool} {s rest : Bytes} {i : Integer}
    (h : number negative s = .ok (.integer i, rest)) :
    ∃ cs, Whole cs ∧ s = cs.map charByte ++ rest ∧ Stops rest ∧
      (i.val = if negative then -(Nat.ofDigitChars 10 cs 0 : Int) else Nat.ofDigitChars 10 cs 0) ∧
      (negative = true → cs ≠ ['0']) := by
  obtain ⟨cs, t, hwhole, rfl, hdigit, hafter⟩ := number_eq_afterWhole h
  obtain ⟨hmarks, significand, habsorb, hnumber⟩ := afterWhole_integer hafter
  obtain rfl := absorb_eq_nil hwhole.1 habsorb
  obtain ⟨rfl, hi, hzero⟩ := wholeNumber_integer hnumber
  have hstops : Stops rest := by
    cases rest with
    | nil => trivial
    | cons b r => exact ⟨hdigit b rfl, hmarks b rfl⟩
  refine ⟨cs, hwhole, rfl, hstops, hi, fun hnegative hcs => hzero hnegative ?_⟩
  rw [hcs]
  rfl

theorem integerLiteral_of_value {levels : Nat} {s rest : Bytes} {i : Integer}
    (h : value levels s = .ok (.number (.integer i), rest)) :
    ∃ p, IntegerLiteral p i.val ∧ skipBlanks s = p ++ rest := by
  obtain ⟨inner, b, r, hs, hfrom⟩ := readFrom_of_value h
  rw [hs]
  cases hfrom with
  | negative h =>
    obtain ⟨cs, hwhole, rfl, -, hi, hzero⟩ := number_integer h
    rw [hi]
    exact ⟨_, .negative hwhole (hzero rfl), rfl⟩
  | natural hb h =>
    obtain ⟨cs, hwhole, hbytes, -, hi, -⟩ := number_integer h
    rw [hi, hbytes]
    exact ⟨_, .natural hwhole, rfl⟩

/-! ## Reading a literal -/

/-- Only the zero has the value zero. -/
theorem Whole.pos {cs : List Char} (h : Whole cs) (hzero : cs ≠ ['0']) :
    0 < Nat.ofDigitChars 10 cs 0 := by
  obtain ⟨hdigits, rfl | ⟨c, r, rfl, hc⟩⟩ := h
  · exact absurd rfl hzero
  · rw [List.forall_mem_cons] at hdigits
    have hbounds := bounds_of_isDigit hdigits.1
    have hne : c.toNat ≠ 48 := fun heq => hc (Char.toNat_inj.mp heq)
    rw [Nat.ofDigitChars_cons]
    refine Nat.lt_of_lt_of_le ?_ (le_ofDigitChars r _)
    show 0 < 10 * 0 + (c.toNat - 48)
    omega

theorem number_of_whole {cs : List Char} (h : Whole cs) (negative : Bool)
    (hfits : Nat.ofDigitChars 10 cs 0 ≤ 0xffff_ffff_ffff_ffff) :
    number negative (cs.map charByte) = wholeNumber negative (Nat.ofDigitChars 10 cs 0) [] := by
  have hnumber : number negative (cs.map charByte ++ []) = _ := number_whole h negative nofun
  rw [List.append_nil] at hnumber
  rw [hnumber, afterWhole, absorb_digits h.1 hfits]
  rfl

/-- A literal that stands alone. -/
theorem value_literal {levels : Nat} {p : Bytes} {i : Integer} (h : IntegerLiteral p i.val) :
    value levels p = .ok (.number (.integer i), []) := by
  have hupper := i.upper
  have hlower := i.lower
  obtain ⟨inner, hvalue⟩ := value_eq_valueOver levels
  rw [hvalue]
  generalize hk : i.val = k at h
  cases h with
  | @natural cs h =>
    have hnumber := number_of_whole h false (by omega)
    obtain ⟨c, r, rfl⟩ := h.eq_cons
    rw [List.map_cons] at hnumber ⊢
    rw [valueOver_of_isDigit (isDigit_charByte (h.1 c (.head _))), hnumber, wholeNumber_of_nat hk]
    rfl
  | negative h hzero =>
    rw [valueOver_minus, number_of_whole h true (by omega), wholeNumber_of_neg (h.pos hzero) hk]
    rfl

/-- What is read from a literal is its value. -/
theorem value_of_integerLiteral {levels : Nat} {s p rest : Bytes} {v : Json} {i : Integer}
    (h : value levels s = .ok (v, rest)) (hs : skipBlanks s = p ++ rest)
    (hp : IntegerLiteral p i.val) : v = .number (.integer i) := by
  rw [← value_skipBlanks] at h
  obtain ⟨q, hq, hread⟩ := value_reads h
  obtain rfl : p = q := List.append_cancel_right (hs.symm.trans hq)
  have halone := hread [] fun _ => trivial
  rw [List.append_nil, value_literal hp] at halone
  exact (congrArg Prod.fst (Except.ok.inj halone)).symm

end Untagged.Json.Reader
