import Untagged.Json.NumberReader
import Untagged.Proofs.Double.Shortest

/-!
# Shortest decimals are in range

A float is read in steps, each rounded, and what is read can be off by some units in
the last place.  It is finite nevertheless when it was written for a finite number.

Scaling down never leaves the range, since a quotient by one or more is not larger
than the number divided.  Scaling up is bounded by the interval of the number: for
every exponent the rounded product of a decimal below the largest number is at most
the product at the end of the interval, and few of these are near the end of the range
(`scaled_below_largest`).  At the end of the interval of the largest number itself a
product would be out of range, but the shortest decimal of that number is a single one.
-/

namespace Untagged

namespace Double

/-! ## Operations that stay finite -/

section

variable {negative : Bool} {c num den : Nat} {x y : Double}

theorem infinityCode_lt : infinityCode < signBit := by decide

/-- A quotient that is at most the magnitude of a code is rounded to that code at most. -/
theorem code_ofQuotient_le (hden : 0 < den) (h : num * one ≤ unitsOf c * den) :
    (ofQuotient negative num den).code ≤ c := by
  have hround := nearestCode_le hden h
  have hrange := infinityCode_lt
  rw [ofQuotient, code_ofCode (by omega)]
  omega

theorem isFinite_of_code_le (hc : c < infinityCode) (h : x.code ≤ c) : x.isFinite = true :=
  decide_eq_true (Nat.lt_of_le_of_lt h hc)

theorem code_ofNat_mono {m n : Nat} (h : m ≤ n) : (ofNat m).code ≤ (ofNat n).code := by
  have hround := nearestCode_mono Nat.one_pos (Nat.mul_le_mul_right one h)
  have hrange := infinityCode_lt
  rw [ofNat, ofNat, ofQuotient, ofQuotient, code_ofCode (by omega), code_ofCode (by omega)]
  omega

theorem units_ofNat_mono {m n : Nat} (h : m ≤ n) : (ofNat m).units ≤ (ofNat n).units :=
  unitsOf_mono (code_ofNat_mono h)

theorem code_tenPower_mono {j k : Nat} (h : j ≤ k) : (tenPower j).code ≤ (tenPower k).code :=
  code_ofNat_mono (Nat.pow_le_pow_right (by decide) h)

theorem units_tenPower_mono {j k : Nat} (h : j ≤ k) : (tenPower j).units ≤ (tenPower k).units :=
  unitsOf_mono (code_tenPower_mono h)

theorem units_tenPower_zero : (tenPower 0).units = one := by decide +kernel

theorem one_le_units_tenPower (k : Nat) : one ≤ (tenPower k).units := by
  rw [← units_tenPower_zero]
  exact units_tenPower_mono (Nat.zero_le k)

/-- Dividing by one or more does not enlarge a number. -/
theorem code_div_le (hy : one ≤ y.units) : (x.div y).code ≤ x.code := by
  apply code_ofQuotient_le (Nat.lt_of_lt_of_le one_pos hy)
  exact Nat.mul_le_mul_left _ hy

theorem code_mul_le (h : x.units * y.units ≤ unitsOf c * one) : (x.mul y).code ≤ c := by
  apply code_ofQuotient_le (Nat.mul_pos one_pos one_pos)
  rw [← Nat.mul_assoc]
  exact Nat.mul_le_mul_right one h

end

end Double

namespace Json.Reader

open Double

/-! ## Scaling down -/

section

variable {significand : Nat}

theorem code_divideDown_le (n : Nat) (f : Double) : (divideDown n f).code ≤ f.code := by
  induction n generalizing f with
  | zero => exact Nat.le_refl _
  | succ n ih =>
    rw [divideDown]
    split
    · exact Nat.le_refl _
    · exact Nat.le_trans (ih _) (code_div_le (one_le_units_tenPower maxTenPower))

/-- A significand of 64 bits is finite as a float. -/
theorem isFinite_ofNat (h : significand ≤ 0xffff_ffff_ffff_ffff) :
    (Double.ofNat significand).isFinite = true := by
  have hmax : (Double.ofNat 0xffff_ffff_ffff_ffff).code < infinityCode := by decide +kernel
  exact isFinite_of_code_le hmax (code_ofNat_mono h)

theorem scaled?_down (h : significand ≤ 0xffff_ffff_ffff_ffff) {exponent : Int}
    (hexponent : exponent < 0) :
    ∃ f, scaled? significand exponent = some f ∧ f.isFinite = true := by
  obtain ⟨k, rfl⟩ := Int.eq_negSucc_of_lt_zero hexponent
  have hcode : (Double.ofNat significand).code < infinityCode :=
    of_decide_eq_true (isFinite_ofNat h)
  have hdown := code_divideDown_le (k / maxTenPower) (Double.ofNat significand)
  have hrest := code_div_le (x := divideDown (k / maxTenPower) (Double.ofNat significand))
    (one_le_units_tenPower (k + 1 - k / maxTenPower * maxTenPower))
  exact ⟨_, rfl, isFinite_of_code_le hcode (Nat.le_trans hrest hdown)⟩

end

/-! ## Scaling up -/

/-- The code of the largest number. -/
def largestCode : Nat := infinityCode - 1

/-- The largest significand that a number below the largest is written with at an
exponent. -/
def largestSignificand (exponent : Nat) : Nat :=
  min (10 ^ 17) (upperEnd (largestCode - 1) / (2 * (one * 10 ^ exponent)))

/-- From 291 on the products are computed one by one. -/
theorem scaled_below_largest : ∀ k < 309, 291 ≤ k →
    (Double.ofNat (largestSignificand k)).units * (tenPower k).units ≤
      unitsOf largestCode * one := by
  decide +kernel

/-- Up to 291 every significand is as large as the digits allow. -/
theorem largestSignificand_eq : largestSignificand 291 = 10 ^ 17 := by decide +kernel

theorem scaled_le_largest {digits k : Nat} (hk : k < 309)
    (hdigits : digits ≤ largestSignificand k) :
    (Double.ofNat digits).units * (tenPower k).units ≤ unitsOf largestCode * one := by
  rcases Nat.lt_or_ge k 291 with hlt | hge
  · apply Nat.le_trans _ (scaled_below_largest 291 (by decide) (Nat.le_refl _))
    apply Nat.mul_le_mul
    · apply units_ofNat_mono
      rw [largestSignificand_eq]
      exact Nat.le_trans hdigits (Nat.min_le_left _ _)
    · exact units_tenPower_mono (Nat.le_of_lt hlt)
  · exact Nat.le_trans (Nat.mul_le_mul_right _ (units_ofNat_mono hdigits))
      (scaled_below_largest k hk hge)

theorem shortest_largestCode : shortest largestCode = ⟨17976931348623157, 292⟩ := by
  decide +kernel

theorem scaled?_largest :
    ∃ f, scaled? 17976931348623157 292 = some f ∧ f.isFinite = true := by
  have hsome : ((scaled? 17976931348623157 292).map Double.isFinite) = some true := by
    decide +kernel
  obtain ⟨f, hf, hfinite⟩ := Option.map_eq_some_iff.mp hsome
  exact ⟨f, hf, hfinite⟩

theorem scaled?_up {code : Nat} {d : Decimal} (hcode : code ≠ 0) (hbelow : code < largestCode)
    (hdigits : d.digits ≤ 10 ^ 17) (h : Identifies d code) (hexponent : 0 ≤ d.exponent) :
    ∃ f, scaled? d.digits d.exponent = some f ∧ f.isFinite = true := by
  have hrange : largestCode < infinityCode := by decide
  obtain ⟨-, -, hmax⟩ := exponent_of_identifies hcode (by omega) hdigits h
  obtain ⟨digits, exponent⟩ := d
  obtain ⟨k, rfl⟩ := Int.eq_ofNat_of_zero_le hexponent
  dsimp only at hdigits hmax ⊢
  have hhigh : 2 * (digits * (one * 10 ^ k)) ≤ upperEnd code * 1 := (readsBack_le h).2
  have hend := upperEnd_mono (show code ≤ largestCode - 1 by omega)
  have hsignificand : digits ≤ largestSignificand k := by
    apply Nat.le_min.mpr ⟨hdigits, ?_⟩
    have hpos : 0 < 2 * (one * 10 ^ k) :=
      Nat.mul_pos (by decide) (Nat.mul_pos Double.one_pos (Nat.pow_pos (by decide)))
    rw [Nat.le_div_iff_mul_le hpos]
    have hswap : digits * (2 * (one * 10 ^ k)) = 2 * (digits * (one * 10 ^ k)) := by ring
    omega
  have hfinite : ((Double.ofNat digits).mul (tenPower k)).isFinite = true :=
    isFinite_of_code_le hrange (code_mul_le (scaled_le_largest (by omega) hsignificand))
  refine ⟨_, ?_, hfinite⟩
  show (if k ≤ maxTenPower then _ else _) = _
  have hk : k ≤ maxTenPower := by
    show k ≤ 308
    omega
  rw [if_pos hk]
  exact if_pos hfinite

/-- The shortest decimal of a finite number is finite when it is read. -/
theorem scaled?_shortest {code : Nat} (hcode : code ≠ 0) (hfinite : code < infinityCode) :
    ∃ f, scaled? (shortest code).digits (shortest code).exponent = some f ∧
      f.isFinite = true := by
  obtain ⟨hidentifies, hdigits⟩ := shortest_spec hcode
  rcases Int.lt_or_le (shortest code).exponent 0 with hneg | hpos
  · exact scaled?_down (by omega) hneg
  · have hrange : infinityCode = largestCode + 1 := by decide
    by_cases hlargest : code = largestCode
    · rw [hlargest, shortest_largestCode]
      exact scaled?_largest
    · exact scaled?_up hcode (by omega) hdigits hidentifies hpos

end Json.Reader

end Untagged
