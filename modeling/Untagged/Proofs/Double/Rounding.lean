import Mathlib.Tactic.Linarith
import Mathlib.Tactic.Ring
import Untagged.Double

/-!
# Rounding to a binary64 number

Codes and magnitudes are in the same order: one code further on the magnitude is one
gap larger (`unitsOf_succ`), and a gap is at least a part in `2 ^ 53` of the
magnitude behind it.

Rounding is monotone (`nearestCode_mono`), and it does not pass by a number: a quotient
that is at most the magnitude of some code is rounded to that code at most
(`nearestCode_le`).  So a product, a quotient or a conversion is finite where the exact
result is bounded by a finite number.
-/

namespace Untagged

/-! ## Rounding a quotient to a whole number -/

theorem div_le_roundQuotient (num den : Nat) : num / den ≤ roundQuotient num den := by
  unfold roundQuotient
  dsimp only
  split
  · omega
  · split
    · omega
    · omega

theorem roundQuotient_le_succ (num den : Nat) : roundQuotient num den ≤ num / den + 1 := by
  unfold roundQuotient
  dsimp only
  split
  · omega
  · split
    · omega
    · omega

theorem roundQuotient_le {num den k : Nat} (hden : 0 < den) (h : num ≤ k * den) :
    roundQuotient num den ≤ k := by
  have hq : num / den ≤ k := Nat.div_le_of_le_mul (by rwa [Nat.mul_comm])
  rcases Nat.lt_or_eq_of_le hq with hlt | heq
  · have hsucc := roundQuotient_le_succ num den
    omega
  · -- The quotient is the bound itself, so nothing is left to be rounded.
    have hsplit := Nat.div_add_mod num den
    rw [heq, Nat.mul_comm] at hsplit
    have hmod : num % den = 0 := by omega
    unfold roundQuotient
    rw [hmod]
    simp only [Nat.mul_zero, if_pos hden]
    omega

theorem roundQuotient_mono {a b : Nat} {den : Nat} (h : a ≤ b) :
    roundQuotient a den ≤ roundQuotient b den := by
  rcases Nat.lt_or_eq_of_le (Nat.div_le_div_right (c := den) h) with hlt | heq
  · have hceil := roundQuotient_le_succ a den
    have hfloor := div_le_roundQuotient b den
    omega
  · -- Between the same two whole numbers the larger quotient is not rounded down where
    -- the smaller one is rounded up.
    have ha := Nat.div_add_mod a den
    have hb := Nat.div_add_mod b den
    rw [heq] at ha
    unfold roundQuotient
    rw [heq]
    dsimp only
    split_ifs <;> omega

/-- A rounded quotient is half a unit away at most. -/
theorem roundQuotient_near (num : Nat) {den : Nat} (hden : 0 < den) :
    2 * (roundQuotient num den * den) ≤ 2 * num + den ∧
      2 * num ≤ 2 * (roundQuotient num den * den) + den := by
  have hsplit := Nat.div_add_mod num den
  have hmod := Nat.mod_lt num hden
  rw [Nat.mul_comm] at hsplit
  have hsucc : (num / den + 1) * den = num / den * den + den := Nat.succ_mul _ _
  have hparity : num / den % 2 = 0 ∨ num / den % 2 = 1 := by omega
  unfold roundQuotient
  dsimp only
  split
  · omega
  · split
    · rcases hparity with h | h
      · rw [h, Nat.add_zero]
        omega
      · rw [h, hsucc]
        omega
    · rw [hsucc]
      omega

namespace Double

/-! ## Codes and magnitudes -/

/-- A code leaves the bit of the sign alone. -/
theorem code_ofCode {negative : Bool} {c : Nat} (h : c < signBit) :
    (ofCode negative c).code = c := by
  have hsign : signBit = 9223372036854775808 := rfl
  rw [hsign] at h
  unfold code ofCode
  dsimp only
  rw [UInt64.toNat_ofNat', hsign]
  split
  · omega
  · omega

theorem one_pos : 0 < one := by
  apply Nat.pow_pos
  decide

theorem unitsOf_eq (code : Nat) : unitsOf code = significandOf code * 2 ^ scaleOf code := rfl

theorem significandOf_lt (code : Nat) : significandOf code < 2 * binade := by
  have hmod := Nat.mod_lt code (show 0 < binade by decide)
  unfold significandOf
  split
  · omega
  · omega

/-- Only the codes of the first two binades are not scaled. -/
theorem binade_le_significandOf {code : Nat} (h : 0 < scaleOf code) :
    binade ≤ significandOf code := by
  have hbinade : 0 < binade := by decide
  have hcode : ¬ code < binade := by
    intro hlt
    rw [scaleOf, Nat.div_eq_of_lt hlt] at h
    omega
  unfold significandOf
  rw [if_neg hcode]
  omega

theorem code_eq (code : Nat) : significandOf code + scaleOf code * binade = code := by
  have hsplit := Nat.div_add_mod code binade
  rw [Nat.mul_comm] at hsplit
  unfold significandOf scaleOf
  split
  · next h =>
    rw [Nat.div_eq_of_lt h]
    omega
  · next h =>
    have hone : 1 ≤ code / binade := (Nat.one_le_div_iff (by decide)).mpr (by omega)
    obtain ⟨k, hk⟩ := Nat.exists_eq_add_of_le hone
    rw [hk, Nat.add_mul] at hsplit
    rw [hk, Nat.add_sub_cancel_left]
    omega

theorem scaleOf_mono {c d : Nat} (h : c ≤ d) : scaleOf c ≤ scaleOf d := by
  have hdiv : c / binade ≤ d / binade := Nat.div_le_div_right h
  unfold scaleOf
  omega

/-- The next code is one step of the scale further. -/
theorem unitsOf_succ (code : Nat) : unitsOf (code + 1) = unitsOf code + 2 ^ scaleOf code := by
  have hcode := code_eq code
  have hsucc := code_eq (code + 1)
  have hlt := significandOf_lt code
  have hlt' := significandOf_lt (code + 1)
  have hle : scaleOf code ≤ scaleOf (code + 1) := scaleOf_mono (Nat.le_succ code)
  rcases Nat.eq_or_lt_of_le hle with heq | hup
  · have hsig : significandOf (code + 1) = significandOf code + 1 := by
      rw [← heq] at hsucc
      omega
    rw [unitsOf_eq, unitsOf_eq, ← heq, hsig, Nat.add_one_mul]
  · -- The last code of a binade: the next significand is the least one again, and the
    -- scale one step further.
    have hbinade : binade ≤ significandOf (code + 1) := binade_le_significandOf (by omega)
    have hscale : scaleOf (code + 1) = scaleOf code + 1 := by
      by_contra hne
      have hmul : (scaleOf code + 2) * binade ≤ scaleOf (code + 1) * binade :=
        Nat.mul_le_mul_right _ (by omega)
      rw [Nat.add_mul] at hmul
      omega
    rw [hscale, Nat.succ_mul] at hsucc
    have hlast : significandOf code + 1 = 2 * binade := by omega
    have hfirst : significandOf (code + 1) = binade := by omega
    calc unitsOf (code + 1) = binade * 2 ^ (scaleOf code + 1) := by
          rw [unitsOf_eq, hscale, hfirst]
      _ = 2 * binade * 2 ^ scaleOf code := by ring
      _ = unitsOf code + 2 ^ scaleOf code := by rw [← hlast, Nat.add_one_mul, unitsOf_eq]

theorem unitsOf_mono {c d : Nat} (h : c ≤ d) : unitsOf c ≤ unitsOf d := by
  obtain ⟨k, rfl⟩ := Nat.exists_eq_add_of_le h
  induction k with
  | zero => exact Nat.le_refl _
  | succ k ih =>
    calc unitsOf c ≤ unitsOf (c + k) := ih (Nat.le_add_right _ _)
      _ ≤ unitsOf (c + k) + 2 ^ scaleOf (c + k) := Nat.le_add_right _ _
      _ = unitsOf (c + k + 1) := (unitsOf_succ _).symm

/-- A magnitude is no more than `2 ^ 53` times the gap in front of it. -/
theorem unitsOf_succ_le (code : Nat) : unitsOf (code + 1) ≤ 2 * binade * 2 ^ scaleOf code := by
  have hlt := significandOf_lt code
  rw [unitsOf_succ, unitsOf_eq, ← Nat.add_one_mul]
  exact Nat.mul_le_mul_right _ hlt

/-! ## The nearest code -/

section

variable {num den code : Nat}

/-- The scale at which a quotient is rounded. -/
def roundingScale (num den : Nat) : Nat := (num / den).log2 - fractionBits

theorem nearestCode_eq (num den : Nat) :
    nearestCode num den =
      roundQuotient num (den * 2 ^ roundingScale num den) + roundingScale num den * binade :=
  rfl

theorem div_lt_of_roundingScale (num den : Nat) :
    num / den < 2 * binade * 2 ^ roundingScale num den := by
  have hlog := Nat.lt_log2_self (n := num / den)
  have hexponent : (num / den).log2 + 1 ≤ 53 + roundingScale num den := by
    have hbits : fractionBits = 52 := rfl
    unfold roundingScale
    omega
  have hpow : 2 ^ ((num / den).log2 + 1) ≤ 2 ^ (53 + roundingScale num den) :=
    Nat.pow_le_pow_right (by decide) hexponent
  have hsplit : 2 ^ (53 + roundingScale num den) = 2 * binade * 2 ^ roundingScale num den :=
    Nat.pow_add _ _ _
  rw [hsplit] at hpow
  exact Nat.lt_of_lt_of_le hlog hpow

theorem le_div_of_roundingScale (h : 0 < roundingScale num den) :
    binade * 2 ^ roundingScale num den ≤ num / den := by
  have hbits : fractionBits = 52 := rfl
  have hlog : (num / den).log2 = 52 + roundingScale num den := by
    unfold roundingScale at h ⊢
    omega
  have hne : num / den ≠ 0 := by
    intro hzero
    rw [hzero] at hlog
    have hnone : Nat.log2 0 = 0 := by decide
    omega
  have hpow := Nat.log2_self_le hne
  rwa [hlog, Nat.pow_add] at hpow

/-- A significand is rounded up to the start of the next binade at most. -/
theorem scaledQuotient_le (num : Nat) (hden : 0 < den) :
    roundQuotient num (den * 2 ^ roundingScale num den) ≤ 2 * binade := by
  apply roundQuotient_le (by positivity)
  have hnum := Nat.lt_mul_of_div_lt (div_lt_of_roundingScale num den) hden
  calc num ≤ 2 * binade * 2 ^ roundingScale num den * den := Nat.le_of_lt hnum
    _ = 2 * binade * (den * 2 ^ roundingScale num den) := by ring

theorem le_scaledQuotient (h : 0 < roundingScale num den) :
    binade ≤ roundQuotient num (den * 2 ^ roundingScale num den) := by
  have hfloor := div_le_roundQuotient num (den * 2 ^ roundingScale num den)
  rw [← Nat.div_div_eq_div_mul] at hfloor
  apply Nat.le_trans _ hfloor
  rw [Nat.le_div_iff_mul_le (by positivity)]
  exact le_div_of_roundingScale h

/-- Rounding does not pass by a number above. -/
theorem nearestCode_le (hden : 0 < den) (h : num ≤ unitsOf code * den) :
    nearestCode num den ≤ code := by
  have hcode := code_eq code
  have hq : num / den ≤ unitsOf code := Nat.div_le_of_le_mul (by rwa [Nat.mul_comm])
  have hsig := significandOf_lt code
  have hscale : roundingScale num den ≤ scaleOf code := by
    by_contra hlt
    have hpos : 0 < roundingScale num den := by omega
    have hlow := le_div_of_roundingScale hpos
    have hpow : 2 ^ (scaleOf code + 1) ≤ 2 ^ roundingScale num den :=
      Nat.pow_le_pow_right (by decide) (by omega)
    have hunits : unitsOf code < 2 * binade * 2 ^ scaleOf code := by
      rw [unitsOf_eq]
      exact Nat.mul_lt_mul_of_pos_right hsig (by positivity)
    have hmul := Nat.mul_le_mul_left binade hpow
    rw [Nat.pow_succ] at hmul
    nlinarith
  rw [nearestCode_eq]
  rcases Nat.eq_or_lt_of_le hscale with heq | hlt
  · have hround : roundQuotient num (den * 2 ^ roundingScale num den) ≤ significandOf code := by
      apply roundQuotient_le (by positivity)
      rw [unitsOf_eq, ← heq] at h
      calc num ≤ significandOf code * 2 ^ roundingScale num den * den := h
        _ = significandOf code * (den * 2 ^ roundingScale num den) := by ring
    rw [← heq] at hcode
    omega
  · -- At a smaller scale the next binade does not start behind `code`.
    have hround := scaledQuotient_le num hden
    have hbinade : binade ≤ significandOf code := binade_le_significandOf (by omega)
    have hmul : (roundingScale num den + 1) * binade ≤ scaleOf code * binade :=
      Nat.mul_le_mul_right _ hlt
    rw [Nat.add_mul] at hmul
    omega

theorem roundingScale_mono (den : Nat) {a b : Nat} (h : a ≤ b) :
    roundingScale a den ≤ roundingScale b den := by
  have hquotient : a / den ≤ b / den := Nat.div_le_div_right h
  unfold roundingScale
  generalize a / den = p at hquotient ⊢
  generalize b / den = q at hquotient ⊢
  apply Nat.sub_le_sub_right
  by_cases hzero : p = 0
  · rw [hzero]
    exact Nat.zero_le _
  · exact (Nat.le_log2 (by omega)).mpr (Nat.le_trans (Nat.log2_self_le hzero) hquotient)

theorem nearestCode_mono {a b : Nat} (hden : 0 < den) (h : a ≤ b) :
    nearestCode a den ≤ nearestCode b den := by
  rw [nearestCode_eq, nearestCode_eq]
  rcases Nat.eq_or_lt_of_le (roundingScale_mono den h) with heq | hlt
  · rw [heq]
    exact Nat.add_le_add_right (roundQuotient_mono h) _
  · have hbelow := scaledQuotient_le a hden
    have habove : binade ≤ roundQuotient b (den * 2 ^ roundingScale b den) :=
      le_scaledQuotient (by omega)
    have hmul : (roundingScale a den + 1) * binade ≤ roundingScale b den * binade :=
      Nat.mul_le_mul_right _ hlt
    rw [Nat.add_mul] at hmul
    omega

end

end Double

end Untagged
