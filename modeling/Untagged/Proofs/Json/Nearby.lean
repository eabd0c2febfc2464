import Untagged.Proofs.Json.Floats

/-!
# How far off a float is read

A step of the reader changes a magnitude by a part in `2 ^ 53` at most, unless the result is
subnormal (`unitsOf_nearestCode_close`).  Such a change leads from an interval into its
neighbour at the furthest (`upperEnd_step`).  Two steps come before the last quotient of a
decimal, or four if a power of ten is divided by in two, so what is read is at most that
many codes away from what was written (`scaledBack_close`).
-/

namespace Untagged

/-- A magnitude exceeds another one by at most `k` steps, which add a part in `2 ^ 53`
each. -/
def Within (k x y : Nat) : Prop := (2 ^ 53) ^ k * x ≤ (2 ^ 53 + 1) ^ k * y

/-- Neither of two magnitudes exceeds the other one by more than `k` steps. -/
def Close (k x y : Nat) : Prop := Within k x y ∧ Within k y x

instance (k x y : Nat) : Decidable (Within k x y) := inferInstanceAs (Decidable (_ ≤ _))

instance (k x y : Nat) : Decidable (Close k x y) := inferInstanceAs (Decidable (_ ∧ _))

section

variable {j k x y z w : Nat}

theorem Within.trans (h : Within j x y) (h' : Within k y z) : Within (j + k) x z := by
  unfold Within at *
  calc (2 ^ 53) ^ (j + k) * x = (2 ^ 53) ^ k * ((2 ^ 53) ^ j * x) := by ring
    _ ≤ (2 ^ 53) ^ k * ((2 ^ 53 + 1) ^ j * y) := Nat.mul_le_mul_left _ h
    _ = (2 ^ 53 + 1) ^ j * ((2 ^ 53) ^ k * y) := by ring
    _ ≤ (2 ^ 53 + 1) ^ j * ((2 ^ 53 + 1) ^ k * z) := Nat.mul_le_mul_left _ h'
    _ = (2 ^ 53 + 1) ^ (j + k) * z := by ring

theorem Within.mul (h : Within j x y) (h' : Within k z w) : Within (j + k) (x * z) (y * w) := by
  unfold Within at *
  calc (2 ^ 53) ^ (j + k) * (x * z) = (2 ^ 53) ^ j * x * ((2 ^ 53) ^ k * z) := by ring
    _ ≤ (2 ^ 53 + 1) ^ j * y * ((2 ^ 53 + 1) ^ k * w) := Nat.mul_le_mul h h'
    _ = (2 ^ 53 + 1) ^ (j + k) * (y * w) := by ring

theorem Within.of_mul (hz : 0 < z) (h : Within k (x * z) (y * z)) : Within k x y := by
  unfold Within at *
  rw [← Nat.mul_assoc, ← Nat.mul_assoc] at h
  exact Nat.le_of_mul_le_mul_right h hz

theorem Close.refl (x : Nat) : Close 0 x x := ⟨Nat.le_refl _, Nat.le_refl _⟩

theorem Close.symm (h : Close k x y) : Close k y x := ⟨h.2, h.1⟩

theorem Close.trans (h : Close j x y) (h' : Close k y z) : Close (j + k) x z := by
  refine ⟨h.1.trans h'.1, ?_⟩
  rw [Nat.add_comm]
  exact h'.2.trans h.2

theorem Close.mul (h : Close j x y) (h' : Close k z w) : Close (j + k) (x * z) (y * w) :=
  ⟨h.1.mul h'.1, h.2.mul h'.2⟩

theorem Close.mul_right (h : Close k x y) (z : Nat) : Close k (x * z) (y * z) :=
  h.mul (.refl z)

theorem Close.mul_left (h : Close k x y) (z : Nat) : Close k (z * x) (z * y) := by
  rw [Nat.mul_comm z, Nat.mul_comm z]
  exact h.mul_right z

theorem Close.of_mul (hz : 0 < z) (h : Close k (x * z) (y * z)) : Close k x y :=
  ⟨h.1.of_mul hz, h.2.of_mul hz⟩

end

namespace Double

section

variable {num den num' den' c d n k : Nat}

/-! ## One step -/

/-- A quotient that is not subnormal is rounded by a part in `2 ^ 53` of it, and of the
result. -/
theorem unitsOf_nearestCode_close (hden : 0 < den) (h : binade * den ≤ num) :
    Close 1 (unitsOf (nearestCode num den) * den) num := by
  obtain ⟨hm, hs⟩ := scaledQuotient_bounds num hden
  have hpos : 0 < den * 2 ^ roundingScale num den := Nat.mul_pos hden (Nat.two_pow_pos _)
  obtain ⟨hnear, hnear'⟩ := roundQuotient_near num hpos
  have hunits := (unitsOf_add hm hs).1
  rw [← nearestCode_eq] at hunits
  have hvalue : unitsOf (nearestCode num den) * den =
      roundQuotient num (den * 2 ^ roundingScale num den) * (den * 2 ^ roundingScale num den) := by
    rw [hunits]
    ring
  rw [← hvalue] at hnear hnear'
  have hbinade : binade = 2 ^ 52 := rfl
  -- There are `2 ^ 52` whole steps of the scale at least, and the error is half of one.
  have hstep : binade * (den * 2 ^ roundingScale num den) ≤ num := by
    rcases Nat.eq_zero_or_pos (roundingScale num den) with hzero | hscale
    · rw [hzero, Nat.pow_zero, Nat.mul_one]
      exact h
    · calc binade * (den * 2 ^ roundingScale num den)
          = binade * 2 ^ roundingScale num den * den := by ring
        _ ≤ num / den * den := Nat.mul_le_mul_right den (le_div_of_roundingScale hscale)
        _ ≤ num := Nat.div_mul_le_self num den
  have hfloor : binade * (den * 2 ^ roundingScale num den) ≤
      unitsOf (nearestCode num den) * den := by
    rw [hvalue]
    apply Nat.mul_le_mul_right
    exact Nat.le_trans ((Nat.le_div_iff_mul_le hpos).mpr hstep) (div_le_roundQuotient _ _)
  rw [hbinade] at hstep hfloor
  unfold Close Within
  omega

/-- The same of a quotient whose rounding stays in range. -/
theorem units_ofQuotient_close {negative : Bool} (hden : 0 < den)
    (h : binade * den ≤ num * one) (hfinite : (ofQuotient negative num den).isFinite = true) :
    Close 1 ((ofQuotient negative num den).units * den) (num * one) := by
  have hmin : (ofQuotient negative num den).code = min infinityCode (nearestCode (num * one) den) :=
    code_ofCode (min_infinityCode_lt _)
  have hlt : (ofQuotient negative num den).code < infinityCode := of_decide_eq_true hfinite
  have hcode : (ofQuotient negative num den).code = nearestCode (num * one) den := by omega
  rw [units, hcode]
  exact unitsOf_nearestCode_close hden h

theorem units_ofNat_close (h : (ofNat n).isFinite = true) :
    Close 1 (ofNat n).units (n * one) := by
  rcases Nat.eq_zero_or_pos n with rfl | hpos
  · have hzero : (ofNat 0).units = 0 := by decide +kernel
    rw [hzero, Nat.zero_mul]
    decide
  · have hone : binade ≤ one := by decide +kernel
    have hclose := units_ofQuotient_close Nat.one_pos
      (by rw [Nat.mul_one]; exact Nat.le_trans hone (Nat.le_mul_of_pos_left one hpos)) h
    rwa [Nat.mul_one] at hclose

/-! ## Several steps -/

theorem upperEnd_step (c : Nat) : (2 ^ 53 + 1) * upperEnd c < 2 ^ 53 * upperEnd (c + 1) := by
  have hsig := significandOf_lt c
  have hbinade : binade = 2 ^ 52 := rfl
  have hgap : 2 ^ scaleOf c ≤ 2 ^ scaleOf (c + 1) :=
    Nat.pow_le_pow_right (by decide) (scaleOf_mono (Nat.le_add_right c 1))
  have hpos := Nat.two_pow_pos (scaleOf c)
  have hstep := unitsOf_succ c
  have hbound : unitsOf c ≤ (2 ^ 53 - 1) * 2 ^ scaleOf c := by
    rw [unitsOf_eq]
    exact Nat.mul_le_mul_right _ (by omega)
  rw [upperEnd_eq, upperEnd_eq]
  omega

/-- From the end of a code, `k` steps do not lead past the end of the code `k` behind it. -/
theorem upperEnd_within (c k : Nat) :
    (2 ^ 53 + 1) ^ k * upperEnd c ≤ (2 ^ 53) ^ k * upperEnd (c + k) := by
  induction k with
  | zero => exact Nat.le_refl _
  | succ k ih =>
    calc (2 ^ 53 + 1) ^ (k + 1) * upperEnd c
        = (2 ^ 53 + 1) * ((2 ^ 53 + 1) ^ k * upperEnd c) := by ring
      _ ≤ (2 ^ 53 + 1) * ((2 ^ 53) ^ k * upperEnd (c + k)) := Nat.mul_le_mul_left _ ih
      _ = (2 ^ 53) ^ k * ((2 ^ 53 + 1) * upperEnd (c + k)) := by ring
      _ ≤ (2 ^ 53) ^ k * (2 ^ 53 * upperEnd (c + k + 1)) :=
        Nat.mul_le_mul_left _ (Nat.le_of_lt (upperEnd_step (c + k)))
      _ = (2 ^ 53) ^ (k + 1) * upperEnd (c + (k + 1)) := by
        rw [Nat.add_assoc]
        ring

/-- Where there are any steps at all, they do not even reach it. -/
theorem upperEnd_far (c k : Nat) :
    (2 ^ 53 + 1) ^ (k + 1) * upperEnd c < (2 ^ 53) ^ (k + 1) * upperEnd (c + (k + 1)) := by
  calc (2 ^ 53 + 1) ^ (k + 1) * upperEnd c
      = (2 ^ 53 + 1) ^ k * ((2 ^ 53 + 1) * upperEnd c) := by ring
    _ < (2 ^ 53 + 1) ^ k * (2 ^ 53 * upperEnd (c + 1)) :=
      Nat.mul_lt_mul_of_pos_left (upperEnd_step c) (Nat.pow_pos (by decide))
    _ = 2 ^ 53 * ((2 ^ 53 + 1) ^ k * upperEnd (c + 1)) := by ring
    _ ≤ 2 ^ 53 * ((2 ^ 53) ^ k * upperEnd (c + 1 + k)) :=
      Nat.mul_le_mul_left _ (upperEnd_within (c + 1) k)
    _ = (2 ^ 53) ^ (k + 1) * upperEnd (c + (k + 1)) := by
      rw [Nat.add_assoc, Nat.add_comm 1 k]
      ring

theorem le_add_of_within (hden : 0 < den) (hden' : 0 < den') (hk : 0 < k)
    (h : Within k (num * den') (num' * den)) (hd : readsBack d num den = true)
    (hc : readsBack c num' den' = true) : d ≤ c + k := by
  obtain ⟨k, rfl⟩ := Nat.exists_eq_succ_of_ne_zero (Nat.ne_of_gt hk)
  by_contra hfar
  have hends := upperEnd_le_lowerEnd (show c + (k + 1) < d by omega)
  unfold Within at h
  apply Nat.lt_irrefl ((2 ^ 53) ^ (k + 1) * upperEnd (c + (k + 1)) * (den * den'))
  calc (2 ^ 53) ^ (k + 1) * upperEnd (c + (k + 1)) * (den * den')
      ≤ (2 ^ 53) ^ (k + 1) * lowerEnd d * (den * den') :=
        Nat.mul_le_mul_right _ (Nat.mul_le_mul_left _ hends)
    _ = (2 ^ 53) ^ (k + 1) * den' * (lowerEnd d * den) := by ring
    _ ≤ (2 ^ 53) ^ (k + 1) * den' * (2 * num) := Nat.mul_le_mul_left _ (readsBack_le hd).1
    _ = 2 * ((2 ^ 53) ^ (k + 1) * (num * den')) := by ring
    _ ≤ 2 * ((2 ^ 53 + 1) ^ (k + 1) * (num' * den)) := Nat.mul_le_mul_left _ h
    _ = (2 ^ 53 + 1) ^ (k + 1) * den * (2 * num') := by ring
    _ ≤ (2 ^ 53 + 1) ^ (k + 1) * den * (upperEnd c * den') :=
        Nat.mul_le_mul_left _ (readsBack_le hc).2
    _ = (2 ^ 53 + 1) ^ (k + 1) * upperEnd c * (den * den') := by ring
    _ < (2 ^ 53) ^ (k + 1) * upperEnd (c + (k + 1)) * (den * den') :=
        Nat.mul_lt_mul_of_pos_right (upperEnd_far c k) (Nat.mul_pos hden hden')

/-- Quotients that are `k` steps apart are rounded to codes that are no further apart. -/
theorem nearestCode_close (hden : 0 < den) (hden' : 0 < den') (hk : 0 < k)
    (h : Close k (num * den') (num' * den)) (hc : readsBack c num' den' = true) :
    nearestCode num den ≤ c + k ∧ c ≤ nearestCode num den + k := by
  have hd := readsBack_nearestCode num hden
  exact ⟨le_add_of_within hden hden' hk h.1 hd hc, le_add_of_within hden' hden hk h.2 hc hd⟩

/-! ## The reader -/

theorem isFinite_tenPower (h : k ≤ 308) : (tenPower k).isFinite = true := by
  have hlast : (tenPower 308).code < infinityCode := by decide +kernel
  exact isFinite_of_code_le hlast (code_tenPower_mono h)

theorem units_tenPower_close (h : k ≤ 308) : Close 1 (tenPower k).units (10 ^ k * one) :=
  units_ofNat_close (isFinite_tenPower h)

/-- The first of two quotients is three steps away.  The digits 1 and 2 are told by
computation, as their quotient is subnormal. -/
theorem units_div_close (hn : n ≤ 0xffff_ffff_ffff_ffff) :
    Close 3 (((ofNat n).div (tenPower 308)).units * 10 ^ 308) (n * one) := by
  have hfinite := Json.Reader.isFinite_ofNat hn
  have hsmall : ∀ m < 3, Close 3 (((ofNat m).div (tenPower 308)).units * 10 ^ 308) (m * one) := by
    decide +kernel
  rcases Nat.lt_or_ge n 3 with hlt | hge
  · exact hsmall n hlt
  have hnormal : binade * (tenPower 308).units ≤ (ofNat n).units * one := by
    have hthree : binade * (tenPower 308).units ≤ (ofNat 3).units * one := by decide +kernel
    exact Nat.le_trans hthree (Nat.mul_le_mul_right one (units_ofNat_mono hge))
  have hquotient : ((ofNat n).div (tenPower 308)).isFinite = true :=
    isFinite_of_code_le (of_decide_eq_true hfinite) (code_div_le (one_le_units_tenPower 308))
  have hsign : (ofNat n).isNegative = false := isNegative_ofQuotient
  rw [div_tenPower hsign] at hquotient ⊢
  have hdiv := units_ofQuotient_close (Nat.lt_of_lt_of_le one_pos (one_le_units_tenPower 308))
    hnormal hquotient
  have htens := (units_tenPower_close (Nat.le_refl 308)).symm
  have hdigits := (units_ofNat_close hfinite).mul_right one
  generalize (ofQuotient false (ofNat n).units (tenPower 308).units).units = q at hdiv ⊢
  generalize (tenPower 308).units = t at hdiv htens
  generalize 10 ^ 308 = tens at htens ⊢
  have hclose := ((htens.mul_left q).trans hdiv).trans hdigits
  rw [← Nat.mul_assoc] at hclose
  exact hclose.of_mul one_pos

theorem lastQuotient_close {d : Decimal} (hdigits : d.digits ≤ 0xffff_ffff_ffff_ffff)
    (hlow : -616 ≤ d.exponent) (hhigh : d.exponent ≤ 308) :
    Close d.steps (d.lastQuotient.1 * one * (tenPowerQuotient d.exponent).2)
      (d.digits * (one * (tenPowerQuotient d.exponent).1) * d.lastQuotient.2) := by
  have hn := units_ofNat_close (Json.Reader.isFinite_ofNat hdigits)
  rw [tenPowerQuotient_eq]
  unfold Decimal.lastQuotient Decimal.steps
  by_cases hneg : 0 ≤ d.exponent
  · have hdown : (-d.exponent).toNat = 0 := by omega
    have ht := units_tenPower_close (show d.exponent.toNat ≤ 308 by omega)
    rw [if_pos hneg, if_pos (by omega), hdown]
    convert (hn.mul ht).mul_right one using 1
    · ring
    · ring
  · have hup : d.exponent.toNat = 0 := by omega
    rw [if_neg hneg, hup]
    by_cases hone : -308 ≤ d.exponent
    · have ht := units_tenPower_close (show (-d.exponent).toNat ≤ 308 by omega)
      rw [if_pos hone, if_pos hone]
      convert hn.mul_right (10 ^ (-d.exponent).toNat * one) |>.trans
        (ht.symm.mul_left (d.digits * one)) using 1
      · ring
      · ring
    · have ht := units_tenPower_close (show (-d.exponent - 308).toNat ≤ 308 by omega)
      have hfirst := units_div_close hdigits
      have htwo : 10 ^ (-d.exponent).toNat = 10 ^ 308 * 10 ^ (-d.exponent - 308).toNat := by
        rw [← Nat.pow_add]
        congr 1
        omega
      rw [if_neg hone, if_neg hone, htwo]
      generalize 10 ^ 308 = tens at hfirst ⊢
      convert (hfirst.mul_right (10 ^ (-d.exponent - 308).toNat * one)).trans
        (ht.symm.mul_left (d.digits * one)) using 1
      · ring
      · ring

/-- What the text of a finite number is read as is no more codes away from it than steps. -/
theorem scaledBack_close {x : Double} (hx : x.isFinite = true) :
    x.scaledBack.code ≤ x.code + (shortest x.code).shown.steps ∧
      x.code ≤ x.scaledBack.code + (shortest x.code).shown.steps := by
  have hcode : x.code < infinityCode := of_decide_eq_true hx
  obtain ⟨hdigits, hzero, hexponent, -⟩ := Json.Reader.shortest_moderate hcode
  have hfits := (Json.Reader.number_decimalText hdigits hzero hexponent).1
  have hidentifies := identifies_shortest x.code
  have hrange : -400 ≤ (shortest x.code).shown.exponent ∧
      (shortest x.code).shown.exponent ≤ 308 := by
    rcases (shortest x.code).shown_eq_or with hsame | hdown
    · rw [hsame]
      exact hexponent
    · omega
  have hback : x.scaledBack.code = min infinityCode
      (nearestCode ((shortest x.code).shown.lastQuotient.1 * one)
        (shortest x.code).shown.lastQuotient.2) := code_ofCode (min_infinityCode_lt _)
  generalize (shortest x.code).shown = d at hfits hidentifies hrange hback ⊢
  have hsteps : 0 < d.steps := by
    unfold Decimal.steps
    split <;> decide
  have hclose := nearestCode_close d.lastQuotient_pos (tenPowerQuotient_pos d.exponent).2 hsteps
    (lastQuotient_close (by omega) (by omega) hrange.2) hidentifies
  omega

end

end Double

end Untagged
