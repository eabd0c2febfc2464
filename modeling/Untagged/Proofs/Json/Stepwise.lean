import Untagged.Double.Text
import Untagged.Proofs.Double.Nearest
import Untagged.Proofs.Json.Scaled

/-!
# What a float becomes step by step

A float is read in steps: its digits are rounded, the power of ten is rounded, and so is
their product or quotient.  Only the last step decides whether the number comes back:
`lastQuotient` is what is rounded there, and the number is the same exactly when that
quotient lies in its interval (`scaledBack_eq_iff`).

While the digits and the power of ten are numbers of the format, the first two steps
change nothing, and the quotient is the decimal itself (`survives_of_small`).
-/

namespace Untagged

namespace Decimal

/-- The decimal that the text of a decimal spells out.  A number without a fraction, and
below `10 ^ 16`, is written with a zero behind the point. -/
def shown (d : Decimal) : Decimal :=
  if 0 ≤ d.exponent ∧ (if d.digits = 0 then 0 else d.leadingExponent) < Double.plainBelow then
    ⟨d.digits * 10 ^ (d.exponent.toNat + 1), -1⟩
  else d

theorem shown_cases (d : Decimal) :
    (0 ≤ d.exponent ∧ (if d.digits = 0 then 0 else d.leadingExponent) < Double.plainBelow ∧
      d.shown = ⟨d.digits * 10 ^ (d.exponent.toNat + 1), -1⟩) ∨
    (¬ (0 ≤ d.exponent ∧ (if d.digits = 0 then 0 else d.leadingExponent) < Double.plainBelow) ∧
      d.shown = d) := by
  by_cases h : 0 ≤ d.exponent ∧
      (if d.digits = 0 then 0 else d.leadingExponent) < Double.plainBelow
  · exact .inl ⟨h.1, h.2, if_pos h⟩
  · exact .inr ⟨h, if_neg h⟩

theorem shown_eq_or (d : Decimal) : d.shown = d ∨ d.shown.exponent = -1 := by
  rcases d.shown_cases with ⟨-, -, hshown⟩ | ⟨-, hshown⟩
  · exact .inr (congrArg Decimal.exponent hshown)
  · exact .inl hshown

/-- The quotient that is rounded last when the decimal is read.  A power of ten that is too
small for one step is divided by in two. -/
def lastQuotient (d : Decimal) : Nat × Nat :=
  if 0 ≤ d.exponent then
    ((Double.ofNat d.digits).units * (Double.tenPower d.exponent.toNat).units,
      Double.one * Double.one)
  else if -308 ≤ d.exponent then
    ((Double.ofNat d.digits).units, (Double.tenPower (-d.exponent).toNat).units)
  else
    (((Double.ofNat d.digits).div (Double.tenPower 308)).units,
      (Double.tenPower (-d.exponent - 308).toNat).units)

/-- How many roundings come before the last quotient. -/
def steps (d : Decimal) : Nat := if -308 ≤ d.exponent then 2 else 4

theorem lastQuotient_pos (d : Decimal) : 0 < d.lastQuotient.2 := by
  have hone := Double.one_pos
  have hpower (k : Nat) := Nat.lt_of_lt_of_le hone (Double.one_le_units_tenPower k)
  unfold lastQuotient
  split
  · exact Nat.mul_pos hone hone
  · split
    · exact hpower _
    · exact hpower _

end Decimal

namespace Double

variable {x : Double} {num den c n : Nat} {negative : Bool}

/-! ## Signs -/

theorem isNegative_ofCode (h : c < signBit) : (ofCode negative c).isNegative = negative := by
  have hsign : signBit = 9223372036854775808 := rfl
  rw [hsign] at h
  unfold isNegative ofCode
  rw [UInt64.toNat_ofNat', hsign]
  cases negative with
  | true =>
    rw [if_pos rfl, decide_eq_true_eq]
    omega
  | false =>
    rw [if_neg Bool.false_ne_true, decide_eq_false_iff_not]
    omega

theorem ofCode_code (x : Double) : ofCode x.isNegative x.code = x := by
  have hsign : signBit = 9223372036854775808 := rfl
  have hbits := x.bits.toNat_lt
  have hcode : (if x.isNegative = true then signBit + x.code else x.code) = x.bits.toNat := by
    unfold isNegative code
    rw [hsign]
    by_cases h : 9223372036854775808 ≤ x.bits.toNat
    · rw [if_pos (decide_eq_true h)]
      omega
    · rw [if_neg (by rw [decide_eq_true_eq]; exact h)]
      omega
  rw [ofCode, hcode, UInt64.ofNat_toNat]

theorem min_infinityCode_lt (k : Nat) : min infinityCode k < signBit := by
  have hrange := infinityCode_lt
  omega

theorem isNegative_ofQuotient : (ofQuotient negative num den).isNegative = negative :=
  isNegative_ofCode (min_infinityCode_lt _)

theorem negate_ofQuotient (num den : Nat) :
    (ofQuotient false num den).negate = ofQuotient true num den := by
  rw [negate, isNegative_ofQuotient, ofQuotient, code_ofCode (min_infinityCode_lt _)]
  rfl

theorem signed_ofQuotient (negative : Bool) (num den : Nat) :
    Json.Reader.signed negative (ofQuotient false num den) = ofQuotient negative num den := by
  cases negative with
  | true => exact negate_ofQuotient num den
  | false => rfl

/-! ## The steps of the reader -/

theorem code_ofNat_ne_zero (hn : 0 < n) : (ofNat n).code ≠ 0 := by
  have hmono := code_ofNat_mono (show 1 ≤ n from hn)
  have hone : 0 < (ofNat 1).code := by decide +kernel
  omega

theorem mul_ofNat (m k : Nat) : (ofNat m).mul (tenPower k) =
    ofQuotient false ((ofNat m).units * (tenPower k).units) (one * one) := by
  rw [mul, tenPower, ofNat, ofNat, isNegative_ofQuotient, isNegative_ofQuotient]
  rfl

theorem div_tenPower (hx : x.isNegative = false) (k : Nat) :
    x.div (tenPower k) = ofQuotient false x.units (tenPower k).units := by
  rw [div, hx, tenPower, ofNat, isNegative_ofQuotient]
  rfl

end Double

namespace Json.Reader

open Double

/-- What is read of a decimal is the last quotient, rounded. -/
theorem scaled?_eq_some {d : Decimal} {f : Double} (hlow : -616 ≤ d.exponent)
    (hhigh : d.exponent ≤ 308) (hpos : d.exponent < -308 → 0 < d.digits)
    (h : scaled? d.digits d.exponent = some f) :
    f = ofQuotient false d.lastQuotient.1 d.lastQuotient.2 := by
  obtain ⟨digits, exponent⟩ := d
  dsimp only at hlow hhigh hpos h
  have hmax : maxTenPower = 308 := rfl
  have hofNat : (ofNat digits).isNegative = false := isNegative_ofQuotient
  cases exponent with
  | ofNat k =>
    have hk : k ≤ maxTenPower := by
      rw [hmax]
      exact Int.ofNat_le.mp hhigh
    have hquotient : Decimal.lastQuotient ⟨digits, .ofNat k⟩ =
        ((ofNat digits).units * (tenPower k).units, one * one) := if_pos (Int.natCast_nonneg k)
    rw [scaled?, if_pos hk] at h
    dsimp only at h
    split at h
    · rw [hquotient, ← mul_ofNat]
      exact (Option.some.inj h).symm
    · cases h
  | negSucc k =>
    have hneg : ¬ (0 : Int) ≤ Int.negSucc k := by omega
    rw [scaled?] at h
    obtain rfl := Option.some.inj h
    -- No finite number needs more than one step of 308 before the last one.
    by_cases hone : -308 ≤ Int.negSucc k
    · have hsteps : k / 308 = 0 := by omega
      have hrest : (-Int.negSucc k).toNat = k + 1 := by omega
      have hquotient : Decimal.lastQuotient ⟨digits, .negSucc k⟩ =
          ((ofNat digits).units, (tenPower (k + 1)).units) := by
        rw [← hrest]
        exact (if_neg hneg).trans (if_pos hone)
      rw [hquotient, hmax, hsteps, Nat.zero_mul, Nat.sub_zero]
      exact div_tenPower hofNat _
    · have hsteps : k / 308 = 1 := by omega
      have hrest : (-Int.negSucc k - 308).toNat = k + 1 - 1 * 308 := by omega
      have hquotient : Decimal.lastQuotient ⟨digits, .negSucc k⟩ =
          (((ofNat digits).div (tenPower 308)).units, (tenPower (k + 1 - 1 * 308)).units) := by
        rw [← hrest]
        exact (if_neg hneg).trans (if_neg hone)
      have hdown : divideDown 1 (ofNat digits) = (ofNat digits).div (tenPower 308) := by
        rw [divideDown, if_neg (code_ofNat_ne_zero (hpos (by omega)))]
        rfl
      have hdiv : ((ofNat digits).div (tenPower 308)).isNegative = false := by
        rw [div_tenPower hofNat, isNegative_ofQuotient]
      rw [hquotient, hmax, hsteps, hdown]
      exact div_tenPower hdiv _

end Json.Reader

namespace Double

/-- What the text of a finite number is read as. -/
def scaledBack (x : Double) : Double :=
  ofQuotient x.isNegative (shortest x.code).shown.lastQuotient.1
    (shortest x.code).shown.lastQuotient.2

/-- The last quotient lies in the interval of the number. -/
def Survives (x : Double) : Prop :=
  readsBack x.code ((shortest x.code).shown.lastQuotient.1 * one)
    (shortest x.code).shown.lastQuotient.2 = true

theorem isNegative_scaledBack (x : Double) : x.scaledBack.isNegative = x.isNegative :=
  isNegative_ofQuotient

theorem scaledBack_eq_iff {x : Double} (hx : x.isFinite = true) :
    x.scaledBack = x ↔ x.Survives := by
  have hcode : x.scaledBack.code = x.code ↔ x.Survives :=
    code_ofQuotient_eq_iff x.isNegative (Decimal.lastQuotient_pos (shortest x.code).shown)
      (of_decide_eq_true hx)
  refine Iff.trans ?_ hcode
  constructor
  · intro h
    exact congrArg code h
  · intro h
    rw [← ofCode_code x.scaledBack, isNegative_scaledBack, h, ofCode_code]

/-! ## Steps that round nothing -/

theorem identifies_zeros (n k : Nat) (e : Int) (c : Nat) :
    Identifies ⟨n * 10 ^ k, e⟩ c ↔ Identifies ⟨n, e + k⟩ c := by
  induction k generalizing e with
  | zero =>
    rw [Nat.pow_zero, Nat.mul_one]
    exact Iff.of_eq (by simp)
  | succ k ih =>
    have htens : n * 10 ^ (k + 1) = 10 * (n * 10 ^ k) := by ring
    have hsum : e + 1 + (k : Int) = e + ((k + 1 : Nat) : Int) := by omega
    rw [htens, identifies_dropZero, ih, hsum]

theorem identifies_shown (d : Decimal) (c : Nat) : Identifies d.shown c ↔ Identifies d c := by
  rcases d.shown_cases with ⟨hexponent, -, hshown⟩ | ⟨-, hshown⟩
  · have hsum : (-1 : Int) + ((d.exponent.toNat + 1 : Nat) : Int) = d.exponent := by omega
    rw [hshown, identifies_zeros, hsum]
  · rw [hshown]

/-- The text of a number stands for a decimal in its interval. -/
theorem identifies_shortest (c : Nat) : Identifies (shortest c).shown c := by
  rw [identifies_shown]
  by_cases hc : c = 0
  · rw [hc]
    unfold Identifies
    decide +kernel
  · exact (shortest_spec hc).1

theorem survives_of_small {x : Double} (hdigits : (shortest x.code).shown.digits ≤ 2 ^ 53)
    (hlow : -22 ≤ (shortest x.code).shown.exponent)
    (hhigh : (shortest x.code).shown.exponent ≤ 22) : x.Survives := by
  have hidentifies := identifies_shortest x.code
  unfold Survives
  generalize (shortest x.code).shown = d at hdigits hlow hhigh hidentifies ⊢
  have hpos := (tenPowerQuotient_pos d.exponent).2
  have hexact := units_ofNat_of_le hdigits
  rw [readsBack_of_eq (Decimal.lastQuotient_pos d) hpos, ← Identifies]
  · exact hidentifies
  unfold Decimal.lastQuotient
  rw [tenPowerQuotient_eq]
  by_cases hneg : 0 ≤ d.exponent
  · have hdown : (-d.exponent).toNat = 0 := by omega
    rw [if_pos hneg, hexact, units_tenPower_of_le d.exponent.toNat (by omega), hdown]
    dsimp only
    ring
  · have hup : d.exponent.toNat = 0 := by omega
    rw [if_neg hneg, if_pos (by omega), hexact,
      units_tenPower_of_le (-d.exponent).toNat (by omega), hup]
    dsimp only
    ring

end Double

end Untagged
