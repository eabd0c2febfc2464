import Untagged.Proofs.Double.Shortest

/-!
# The nearest code, by intervals

The intervals of the codes lie side by side: the upper end of one is the lower end of
the next, and of two neighbours exactly one is even and has the end that they share.  So
a quotient lies in one interval only (`readsBack_unique`).  Rounding puts it into the
interval of the code that it returns (`readsBack_nearestCode`), and hence the nearest
code is told by the intervals (`nearestCode_eq_iff`).
-/

namespace Untagged

/-! ## Halves -/

/-- Where a quotient is rounded to an odd number, it is less than half a unit away. -/
theorem roundQuotient_near_of_odd (num : Nat) {den : Nat} (hden : 0 < den)
    (hodd : roundQuotient num den % 2 = 1) :
    2 * (roundQuotient num den * den) < 2 * num + den ∧
      2 * num < 2 * (roundQuotient num den * den) + den := by
  have hsplit := Nat.div_add_mod num den
  have hmod := Nat.mod_lt num hden
  rw [Nat.mul_comm] at hsplit
  have hsucc : (num / den + 1) * den = num / den * den + den := Nat.succ_mul _ _
  unfold roundQuotient at hodd ⊢
  dsimp only at hodd ⊢
  split at hodd
  · next hlow =>
    rw [if_pos hlow]
    omega
  · next hlow =>
    rw [if_neg hlow]
    split at hodd
    · -- A half goes to the even neighbour.
      omega
    · next hhalf =>
      rw [if_neg hhalf, hsucc]
      omega

namespace Double

section

variable {num den c d m s : Nat}

/-! ## Codes by significand and scale -/

theorem scaleOf_add (hm : m < 2 * binade) (hs : s = 0 ∨ binade ≤ m) :
    scaleOf (m + s * binade) = s := by
  have hbinade : 0 < binade := by decide
  have hquotient : (m + s * binade) / binade = m / binade + s := Nat.add_mul_div_right m s hbinade
  rw [scaleOf, hquotient]
  rcases Nat.lt_or_ge m binade with hlt | hge
  · rw [Nat.div_eq_of_lt hlt]
    omega
  · have hone : m / binade = 1 := Nat.div_eq_of_lt_le (by omega) (by omega)
    omega

/-- A significand at a scale, where the start of the next binade counts as well. -/
theorem unitsOf_add (hm : m ≤ 2 * binade) (hs : s = 0 ∨ binade ≤ m) :
    unitsOf (m + s * binade) = m * 2 ^ s ∧ s ≤ scaleOf (m + s * binade) := by
  rcases Nat.lt_or_eq_of_le hm with hlt | rfl
  · have hscale := scaleOf_add hlt hs
    have hcode := code_eq (m + s * binade)
    rw [hscale] at hcode
    have hsig : significandOf (m + s * binade) = m := by omega
    rw [unitsOf_eq, hscale, hsig]
    exact ⟨rfl, Nat.le_refl s⟩
  · have hnext : 2 * binade + s * binade = binade + (s + 1) * binade := by ring
    have hscale : scaleOf (binade + (s + 1) * binade) = s + 1 :=
      scaleOf_add (by decide) (.inr (Nat.le_refl binade))
    have hcode := code_eq (binade + (s + 1) * binade)
    rw [hscale] at hcode
    have hsig : significandOf (binade + (s + 1) * binade) = binade := by omega
    rw [hnext, unitsOf_eq, hscale, hsig, Nat.pow_succ]
    exact ⟨by ring, Nat.le_succ s⟩

theorem upperEnd_eq (c : Nat) : upperEnd c = 2 * unitsOf c + 2 ^ scaleOf c := by
  rw [upperEnd, unitsOf_succ]
  omega

/-! ## Intervals side by side -/

theorem lowerEnd_succ (c : Nat) : lowerEnd (c + 1) = upperEnd c := rfl

theorem upperEnd_lt_succ (c : Nat) : upperEnd c < upperEnd (c + 1) := by
  have hgap := Nat.two_pow_pos (scaleOf c)
  have hgap' := Nat.two_pow_pos (scaleOf (c + 1))
  have hstep := unitsOf_succ c
  rw [upperEnd_eq, upperEnd, unitsOf_succ (c + 1)]
  omega

/-- A later interval starts behind an earlier one, or where that one ends. -/
theorem upperEnd_le_lowerEnd (h : c < d) : upperEnd c ≤ lowerEnd d := by
  obtain ⟨k, rfl⟩ := Nat.exists_eq_add_of_lt h
  rw [lowerEnd_succ]
  exact upperEnd_mono (Nat.le_add_right c k)

/-- No quotient lies in two intervals: the end that two neighbours share belongs to the
even one of them. -/
theorem not_readsBack_of_lt (hden : 0 < den) (h : c < d) (hc : readsBack c num den = true) :
    readsBack d num den = false := by
  rw [Bool.eq_false_iff]
  intro hd
  have hhigh := (readsBack_le hc).2
  have hlow := (readsBack_le hd).1
  have hends := Nat.mul_le_mul_right den (upperEnd_le_lowerEnd h)
  rcases Nat.eq_or_lt_of_le (Nat.succ_le_of_lt h) with rfl | hfar
  · have heq : 2 * num = upperEnd c * den := by
      rw [lowerEnd_succ] at hlow
      omega
    unfold readsBack at hc hd
    dsimp only at hc hd
    rw [lowerEnd_succ, heq] at hd
    rw [heq] at hc
    by_cases heven : c % 2 = 0
    · rw [if_neg (by omega)] at hd
      simp at hd
    · rw [if_neg heven] at hc
      simp at hc
  · have hbetween := Nat.mul_lt_mul_of_pos_right
      (Nat.lt_of_lt_of_le (upperEnd_lt_succ c) (upperEnd_le_lowerEnd hfar)) hden
    omega

theorem readsBack_unique (hden : 0 < den) (hc : readsBack c num den = true)
    (hd : readsBack d num den = true) : c = d := by
  rcases Nat.lt_trichotomy c d with hlt | heq | hgt
  · rw [not_readsBack_of_lt hden hlt hc] at hd
    cases hd
  · exact heq
  · rw [not_readsBack_of_lt hden hgt hd] at hc
    cases hc

/-! ## Rounding -/

theorem scaledQuotient_bounds (num : Nat) (hden : 0 < den) :
    roundQuotient num (den * 2 ^ roundingScale num den) ≤ 2 * binade ∧
      (roundingScale num den = 0 ∨
        binade ≤ roundQuotient num (den * 2 ^ roundingScale num den)) := by
  refine ⟨scaledQuotient_le num hden, ?_⟩
  rcases Nat.eq_zero_or_pos (roundingScale num den) with hzero | hpos
  · exact .inl hzero
  · exact .inr (le_scaledQuotient hpos)

/-- The gap below the nearest code is as wide as the gap behind it, unless the code starts
a binade; but then the quotient is not below the code. -/
theorem lowerEnd_nearestCode (num : Nat) (hden : 0 < den) (hpos : 0 < nearestCode num den) :
    lowerEnd (nearestCode num den) + 2 ^ roundingScale num den =
        2 * unitsOf (nearestCode num den) ∨
      unitsOf (nearestCode num den) * den ≤ num ∧
        lowerEnd (nearestCode num den) < 2 * unitsOf (nearestCode num den) := by
  obtain ⟨hm, hs⟩ := scaledQuotient_bounds num hden
  have hfloor : 0 < roundingScale num den →
      binade * 2 ^ roundingScale num den * den ≤ num := by
    intro hscale
    exact Nat.le_trans (Nat.mul_le_mul_right den (le_div_of_roundingScale hscale))
      (Nat.div_mul_le_self num den)
  rw [nearestCode_eq] at hpos ⊢
  generalize roundQuotient num (den * 2 ^ roundingScale num den) = m at hm hs hpos ⊢
  generalize roundingScale num den = s at hm hs hpos hfloor ⊢
  obtain ⟨c, hc⟩ : ∃ c, m + s * binade = c + 1 := ⟨m + s * binade - 1, by omega⟩
  have hlower : lowerEnd (c + 1) + 2 ^ scaleOf c = 2 * unitsOf (c + 1) := by
    rw [lowerEnd_succ, upperEnd, unitsOf_succ]
    omega
  by_cases hstart : s ≠ 0 ∧ m = binade
  · right
    have hunits := (unitsOf_add hm hs).1
    have hgap := Nat.two_pow_pos (scaleOf c)
    rw [hc] at hunits ⊢
    rw [hunits, hstart.2]
    refine ⟨hfloor (Nat.pos_of_ne_zero hstart.1), ?_⟩
    rw [hunits, hstart.2] at hlower
    omega
  · left
    have hbefore : c = m - 1 + s * binade := by
      rcases hs with rfl | hs
      · omega
      · have hbinade : 0 < binade := by decide
        omega
    have hscale : scaleOf c = s := by
      rw [hbefore]
      apply scaleOf_add
      · have hbinade : 0 < binade := by decide
        omega
      · omega
    rw [hc, ← hscale]
    exact hlower

/-- Both ends at once: an even code has them, and an odd one does not. -/
theorem readsBack_of_le (hlow : lowerEnd c * den ≤ 2 * num) (hhigh : 2 * num ≤ upperEnd c * den)
    (hodd : c % 2 = 1 → lowerEnd c * den < 2 * num ∧ 2 * num < upperEnd c * den) :
    readsBack c num den = true := by
  rcases Nat.mod_two_eq_zero_or_one c with heven | hc
  · unfold readsBack
    dsimp only
    rw [if_pos heven, Bool.and_eq_true, decide_eq_true_eq, decide_eq_true_eq]
    exact ⟨hlow, hhigh⟩
  · exact readsBack_of_lt (hodd hc).1 (hodd hc).2

/-- A quotient lies in the interval of the code that it is rounded to. -/
theorem readsBack_nearestCode (num : Nat) (hden : 0 < den) :
    readsBack (nearestCode num den) num den = true := by
  obtain ⟨hm, hs⟩ := scaledQuotient_bounds num hden
  have hstep : 0 < den * 2 ^ roundingScale num den := Nat.mul_pos hden (Nat.two_pow_pos _)
  obtain ⟨hnear, hnear'⟩ := roundQuotient_near num hstep
  have hodd := roundQuotient_near_of_odd num hstep
  obtain ⟨hunits, hscale⟩ := unitsOf_add hm hs
  have hbelow := lowerEnd_nearestCode num hden
  rw [← nearestCode_eq] at hunits hscale
  -- Everything below is about whole steps: the code is `m` of them.
  have hparity : nearestCode num den % 2 =
      roundQuotient num (den * 2 ^ roundingScale num den) % 2 := by
    have hbinade : binade = 2 * 2251799813685248 := rfl
    rw [nearestCode_eq, hbinade, Nat.mul_left_comm, Nat.add_mul_mod_self_left]
  have hgap : 2 ^ roundingScale num den ≤ 2 ^ scaleOf (nearestCode num den) :=
    Nat.pow_le_pow_right (by decide) hscale
  have hvalue : unitsOf (nearestCode num den) * den =
      roundQuotient num (den * 2 ^ roundingScale num den) * (den * 2 ^ roundingScale num den) := by
    rw [hunits]
    ring
  have habove : 2 * (unitsOf (nearestCode num den) * den) + den * 2 ^ roundingScale num den ≤
      upperEnd (nearestCode num den) * den := by
    have hmul := Nat.mul_le_mul_left den hgap
    have hexpand : (2 * unitsOf (nearestCode num den) + 2 ^ scaleOf (nearestCode num den)) * den =
        2 * (unitsOf (nearestCode num den) * den) +
          den * 2 ^ scaleOf (nearestCode num den) := by ring
    rw [upperEnd_eq, hexpand]
    omega
  have hlow : lowerEnd (nearestCode num den) * den + den * 2 ^ roundingScale num den ≤
        2 * (unitsOf (nearestCode num den) * den) ∨
      lowerEnd (nearestCode num den) * den < 2 * num ∨ nearestCode num den = 0 := by
    rcases Nat.eq_zero_or_pos (nearestCode num den) with hzero | hpos
    · exact .inr (.inr hzero)
    rcases hbelow hpos with hgapBelow | ⟨hfloor, hlt⟩
    · left
      have hmul := congrArg (· * den) hgapBelow
      rw [Nat.add_mul, Nat.mul_assoc, Nat.mul_comm (2 ^ _) den] at hmul
      exact Nat.le_of_eq hmul
    · right
      left
      have hmul := Nat.mul_lt_mul_of_pos_right hlt hden
      rw [Nat.mul_assoc] at hmul
      omega
  rw [← hparity, ← hvalue] at hodd
  rw [← hvalue] at hnear hnear'
  have hzero : nearestCode num den = 0 → lowerEnd (nearestCode num den) * den = 0 := by
    intro h
    have hnone : lowerEnd 0 = 0 := by decide
    rw [h, hnone, Nat.zero_mul]
  apply readsBack_of_le
  · rcases hlow with h | h | h
    · omega
    · exact Nat.le_of_lt h
    · rw [hzero h]
      exact Nat.zero_le _
  · omega
  · intro hc
    have hstrict := hodd hc
    refine ⟨?_, by omega⟩
    rcases hlow with h | h | h
    · omega
    · exact h
    · omega

/-- The nearest code is the one in whose interval the quotient lies. -/
theorem nearestCode_eq_iff (hden : 0 < den) :
    nearestCode num den = c ↔ readsBack c num den = true := by
  constructor
  · intro h
    rw [← h]
    exact readsBack_nearestCode num hden
  · intro h
    exact readsBack_unique hden (readsBack_nearestCode num hden) h

/-- A magnitude of the format is not rounded. -/
theorem nearestCode_of_eq (hden : 0 < den) (h : num = unitsOf c * den) :
    nearestCode num den = c := by
  have hlow : lowerEnd c ≤ 2 * unitsOf c := by
    have hmono := unitsOf_mono (Nat.sub_le c 1)
    unfold lowerEnd
    omega
  have hhigh : 2 * unitsOf c < upperEnd c := by
    have hgap := Nat.two_pow_pos (scaleOf c)
    rw [upperEnd_eq]
    omega
  have hpoint : 2 * num = 2 * unitsOf c * den := by
    rw [h]
    ring
  have hlow' := Nat.mul_le_mul_right den hlow
  have hhigh' := Nat.mul_lt_mul_of_pos_right hhigh hden
  rw [nearestCode_eq_iff hden]
  apply readsBack_of_le
  · omega
  · omega
  · intro hodd
    have hstrict : lowerEnd c < 2 * unitsOf c := by
      obtain ⟨k, rfl⟩ : ∃ k, c = k + 1 := ⟨c - 1, by omega⟩
      have hgap := Nat.two_pow_pos (scaleOf k)
      rw [lowerEnd_succ, upperEnd, unitsOf_succ]
      omega
    have hstrict' := Nat.mul_lt_mul_of_pos_right hstrict hden
    omega

/-! ## Numbers that are not rounded -/

/-- What a quotient is rounded to is told by the interval in which it lies. -/
theorem code_ofQuotient_eq_iff (negative : Bool) (hden : 0 < den) (hc : c < infinityCode) :
    (ofQuotient negative num den).code = c ↔ readsBack c (num * one) den = true := by
  have hrange : infinityCode < signBit := by decide
  rw [ofQuotient, code_ofCode (by omega), ← nearestCode_eq_iff hden]
  omega

/-- A whole number of at most 53 bits is a number of the format. -/
theorem exists_unitsOf_eq {n : Nat} (hn : n ≤ 2 ^ 53) :
    ∃ c < infinityCode, unitsOf c = n * one := by
  have hinfinity : infinityCode = 2047 * binade := rfl
  have hbinade : binade = 2 ^ 52 := rfl
  rcases Nat.eq_zero_or_pos n with rfl | hpos
  · exact ⟨0, by decide, by rw [Nat.zero_mul]; decide⟩
  have hlow := Nat.log2_self_le (Nat.ne_of_gt hpos)
  have hhigh := Nat.lt_log2_self (n := n)
  -- The scale at which the leading bit becomes the hidden one.
  obtain ⟨k, hk, hmin, hmax⟩ :
      ∃ k ≤ 52, binade ≤ n * 2 ^ (52 - k) ∧ n * 2 ^ (52 - k) ≤ 2 * binade := by
    rcases Nat.lt_or_eq_of_le hn with hlt | rfl
    · have hlog : n.log2 ≤ 52 := by
        have hpow := (Nat.pow_lt_pow_iff_right (by decide)).mp (Nat.lt_of_le_of_lt hlow hlt)
        omega
      refine ⟨n.log2, hlog, ?_, ?_⟩
      · calc binade = 2 ^ n.log2 * 2 ^ (52 - n.log2) := by
              rw [← Nat.pow_add, Nat.add_sub_cancel' hlog, hbinade]
          _ ≤ n * 2 ^ (52 - n.log2) := Nat.mul_le_mul_right _ hlow
      · calc n * 2 ^ (52 - n.log2) ≤ 2 ^ (n.log2 + 1) * 2 ^ (52 - n.log2) :=
              Nat.mul_le_mul_right _ (Nat.le_of_lt hhigh)
          _ = 2 * (2 ^ n.log2 * 2 ^ (52 - n.log2)) := by ring
          _ = 2 * binade := by rw [← Nat.pow_add, Nat.add_sub_cancel' hlog, hbinade]
    · exact ⟨52, Nat.le_refl _, by decide, by decide⟩
  obtain ⟨hunits, -⟩ := unitsOf_add hmax (s := 1022 + k) (.inr hmin)
  have hone : one = 2 ^ (52 - k) * 2 ^ (1022 + k) := by
    calc one = Nat.pow 2 (52 - k + (1022 + k)) := by
          unfold one
          congr 1
          omega
      _ = 2 ^ (52 - k) * 2 ^ (1022 + k) := Nat.pow_add 2 _ _
  refine ⟨n * 2 ^ (52 - k) + (1022 + k) * binade, ?_, ?_⟩
  · have hscale : (1022 + k) * binade ≤ 1074 * binade := Nat.mul_le_mul_right _ (by omega)
    have hpositive : 0 < binade := by decide
    omega
  · rw [hunits, hone, Nat.mul_assoc]

theorem units_ofNat_of_le {n : Nat} (hn : n ≤ 2 ^ 53) : (ofNat n).units = n * one := by
  obtain ⟨c, hc, hunits⟩ := exists_unitsOf_eq hn
  have hcode : (ofNat n).code = c := by
    rw [ofNat, code_ofQuotient_eq_iff false Nat.one_pos hc, ← nearestCode_eq_iff Nat.one_pos]
    apply nearestCode_of_eq Nat.one_pos
    rw [hunits, Nat.mul_one]
  rw [units, hcode, hunits]

/-- The powers of ten that are numbers of the format. -/
theorem units_tenPower_of_le : ∀ k < 23, (tenPower k).units = 10 ^ k * one := by
  decide +kernel

end

end Double

end Untagged
