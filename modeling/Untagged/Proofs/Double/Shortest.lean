import Untagged.Double.Shortest
import Untagged.Proofs.Double.Rounding

/-!
# The decimal that identifies a number

`Double.shortest` returns a decimal in the interval of its number, and one that is
small: the digits are at most `10 ^ 17` and the exponent lies between -400 and 308.

The grid sixteen places behind the first digit has a point in the interval, whatever
the number.  The step of that grid is at most `10 ^ (-16)` of the magnitude, while the
gap in front of the number is at least `2 ^ (-53)` of it, so the nearest point of the
grid is less than half a gap away (`onGrid_of_fine`).  Hence one of the seventeen
grids that are tried has a point, and dropping the zeros at the end keeps its value.
-/

namespace Untagged

namespace Decimal

/-! ## Counting digits -/

theorem digitCount_of_lt {n : Nat} (hne : n ≠ 0) (h : n < 10) : digitCount n = 1 := by
  rw [digitCount, if_neg hne, Nat.toDigits_of_lt_base h]
  rfl

theorem digitCount_of_ge {n : Nat} (h : 10 ≤ n) : digitCount n = digitCount (n / 10) + 1 := by
  have hquotient : n / 10 ≠ 0 := by omega
  rw [digitCount, if_neg (by omega), Nat.toDigits_of_base_le (by decide) h, List.length_append,
    digitCount, if_neg hquotient]
  rfl

theorem lt_pow_digitCount (n : Nat) : n < 10 ^ digitCount n := by
  induction n using Nat.strongRecOn with
  | ind n ih =>
    by_cases hzero : n = 0
    · rw [hzero]
      decide
    · rcases Nat.lt_or_ge n 10 with hlt | hge
      · rw [digitCount_of_lt hzero hlt]
        omega
      · have hrec := ih (n / 10) (by omega)
        rw [digitCount_of_ge hge, Nat.pow_succ]
        omega

theorem pow_digitCount_le {n : Nat} (h : n ≠ 0) : 10 ^ digitCount n ≤ 10 * n := by
  induction n using Nat.strongRecOn with
  | ind n ih =>
    rcases Nat.lt_or_ge n 10 with hlt | hge
    · rw [digitCount_of_lt h hlt]
      omega
    · have hrec := ih (n / 10) (by omega) (by omega)
      rw [digitCount_of_ge hge, Nat.pow_succ]
      omega

theorem digitCount_le {n k : Nat} (h : n < 10 ^ k) : digitCount n ≤ k := by
  by_cases hzero : n = 0
  · rw [hzero]
    exact Nat.zero_le k
  · have hpow : 10 ^ digitCount n < 10 ^ (k + 1) := by
      have hle := pow_digitCount_le hzero
      rw [Nat.pow_succ]
      omega
    have hlt := (Nat.pow_lt_pow_iff_right (by decide)).mp hpow
    omega

end Decimal

namespace Double

/-! ## Powers of ten as quotients -/

theorem tenPowerQuotient_eq (e : Int) : tenPowerQuotient e = (10 ^ e.toNat, 10 ^ (-e).toNat) := by
  cases e with
  | ofNat k =>
    have hzero : (-(k : Int)).toNat = 0 := by omega
    show ((10 ^ k, 1) : Nat × Nat) = (10 ^ k, 10 ^ (-(k : Int)).toNat)
    rw [hzero, Nat.pow_zero]
  | negSucc k => rfl

theorem tenPowerQuotient_pos (e : Int) :
    0 < (tenPowerQuotient e).1 ∧ 0 < (tenPowerQuotient e).2 := by
  rw [tenPowerQuotient_eq]
  exact ⟨Nat.pow_pos (by decide), Nat.pow_pos (by decide)⟩

/-- Two powers of ten are as far apart as their exponents. -/
theorem tenPowerQuotient_add (e : Int) (k : Nat) :
    (tenPowerQuotient (e + k)).1 * (tenPowerQuotient e).2 =
      10 ^ k * (tenPowerQuotient e).1 * (tenPowerQuotient (e + k)).2 := by
  rw [tenPowerQuotient_eq, tenPowerQuotient_eq, ← Nat.pow_add, ← Nat.pow_add, ← Nat.pow_add]
  congr 1
  omega

/-! ## The first digit -/

section

variable {num den : Nat}

/-- A quotient of one or more has the digits of its whole part before the point. -/
theorem digitCount_of_le (hden : 0 < den) (hle : den ≤ num) :
    ∃ c, Decimal.digitCount (num / den) = c + 1 ∧
      10 ^ c * den ≤ num ∧ num < 10 * (10 ^ c * den) := by
  have hne : num / den ≠ 0 := by
    have hone := (Nat.one_le_div_iff hden).mpr hle
    omega
  have hlow := Decimal.pow_digitCount_le hne
  have hhigh := Decimal.lt_pow_digitCount (num / den)
  obtain ⟨c, hc⟩ : ∃ c, Decimal.digitCount (num / den) = c + 1 := by
    refine ⟨Decimal.digitCount (num / den) - 1, ?_⟩
    by_contra hcount
    have hzero : Decimal.digitCount (num / den) = 0 := by omega
    rw [hzero] at hhigh
    omega
  rw [hc, Nat.pow_succ] at hlow hhigh
  have hfloor := Nat.div_mul_le_self num den
  have hlt := Nat.lt_mul_of_div_lt hhigh hden
  have hmul : 10 ^ c * den ≤ num / den * den := Nat.mul_le_mul_right _ (by omega)
  refine ⟨c, hc, by omega, ?_⟩
  calc num < 10 ^ c * 10 * den := hlt
    _ = 10 * (10 ^ c * den) := by ring

/-- A quotient below one is short of its first digit by the digits of the whole part of
the inverse, which is taken of a slightly smaller number so that a power of ten counts. -/
theorem digitCount_of_lt (hnum : 0 < num) (hlt : num < den) :
    den ≤ num * 10 ^ Decimal.digitCount ((den - 1) / num) ∧
      num * 10 ^ Decimal.digitCount ((den - 1) / num) < 10 * den := by
  have hne : (den - 1) / num ≠ 0 := by
    have hone := (Nat.one_le_div_iff hnum).mpr (show num ≤ den - 1 by omega)
    omega
  have hlow := Decimal.pow_digitCount_le hne
  have hhigh := Decimal.lt_pow_digitCount ((den - 1) / num)
  have hfloor := Nat.div_mul_le_self (den - 1) num
  have hceil := Nat.lt_mul_of_div_lt hhigh hnum
  have hmul := Nat.mul_le_mul_left num hlow
  constructor
  · rw [Nat.mul_comm num]
    omega
  · have hswap : num * (10 * ((den - 1) / num)) = 10 * ((den - 1) / num * num) := by ring
    omega

/-- The first digit of a quotient stands where `leadingDigitExponent` says. -/
theorem leadingDigitExponent_spec (hnum : 0 < num) (hden : 0 < den) :
    (tenPowerQuotient (leadingDigitExponent num den)).1 * den
        ≤ num * (tenPowerQuotient (leadingDigitExponent num den)).2 ∧
      num * (tenPowerQuotient (leadingDigitExponent num den)).2
        < 10 * ((tenPowerQuotient (leadingDigitExponent num den)).1 * den) := by
  unfold leadingDigitExponent
  split
  · next hle =>
    obtain ⟨c, hc, hlow, hhigh⟩ := digitCount_of_le hden hle
    have hexponent : ((c + 1 : Nat) : Int) - 1 = (c : Int) := by omega
    rw [hc, hexponent]
    show 10 ^ c * den ≤ num * 1 ∧ num * 1 < 10 * (10 ^ c * den)
    rw [Nat.mul_one]
    exact ⟨hlow, hhigh⟩
  · next hle =>
    have hcount := digitCount_of_lt hnum (Nat.lt_of_not_le hle)
    rw [tenPowerQuotient_eq]
    have hup : (-(Decimal.digitCount ((den - 1) / num) : Int)).toNat = 0 := by omega
    have hdown : (- -(Decimal.digitCount ((den - 1) / num) : Int)).toNat =
        Decimal.digitCount ((den - 1) / num) := by omega
    rw [hup, hdown]
    dsimp only
    rw [Nat.pow_zero, Nat.one_mul]
    exact hcount

end

/-! ## Decimals in the interval of a number -/

/-- Whether a decimal lies in the interval of a code. -/
def Identifies (d : Decimal) (code : Nat) : Prop :=
  readsBack code (d.digits * (one * (tenPowerQuotient d.exponent).1))
    (tenPowerQuotient d.exponent).2 = true

section

variable {code num den num' den' : Nat}

theorem upperEnd_mono {c d : Nat} (h : c ≤ d) : upperEnd c ≤ upperEnd d :=
  Nat.add_le_add (unitsOf_mono h) (unitsOf_mono (Nat.succ_le_succ h))

theorem readsBack_le (h : readsBack code num den = true) :
    lowerEnd code * den ≤ 2 * num ∧ 2 * num ≤ upperEnd code * den := by
  unfold readsBack at h
  dsimp only at h
  split at h
  · simpa only [Bool.and_eq_true, decide_eq_true_eq] using h
  · simp only [Bool.and_eq_true, decide_eq_true_eq] at h
    exact ⟨Nat.le_of_lt h.1, Nat.le_of_lt h.2⟩

theorem readsBack_of_lt (hlow : lowerEnd code * den < 2 * num)
    (hhigh : 2 * num < upperEnd code * den) : readsBack code num den = true := by
  unfold readsBack
  dsimp only
  split
  · simp only [Bool.and_eq_true, decide_eq_true_eq]
    exact ⟨Nat.le_of_lt hlow, Nat.le_of_lt hhigh⟩
  · simp only [Bool.and_eq_true, decide_eq_true_eq]
    exact ⟨hlow, hhigh⟩

/-- Only the quotient decides. -/
theorem readsBack_scale {k : Nat} (hk : 0 < k) (code num den : Nat) :
    readsBack code (num * k) (den * k) = readsBack code num den := by
  have hpoint : 2 * (num * k) = 2 * num * k := by ring
  have hend : ∀ n, n * (den * k) = n * den * k := fun n => by ring
  unfold readsBack
  dsimp only
  simp only [hpoint, hend, Nat.mul_le_mul_right_iff hk, Nat.mul_lt_mul_right hk]

theorem readsBack_of_eq (hden : 0 < den) (hden' : 0 < den') (h : num * den' = num' * den) :
    readsBack code num den = readsBack code num' den' := by
  rw [← readsBack_scale hden' code num den, ← readsBack_scale hden code num' den', h,
    Nat.mul_comm den den']

end

theorem identifies_dropZero {q : Nat} {e : Int} {code : Nat} :
    Identifies ⟨10 * q, e⟩ code ↔ Identifies ⟨q, e + 1⟩ code := by
  have hshift := tenPowerQuotient_add e 1
  have hpos := (tenPowerQuotient_pos e).2
  have hpos' := (tenPowerQuotient_pos (e + 1)).2
  unfold Identifies
  dsimp only
  rw [readsBack_of_eq hpos hpos']
  calc 10 * q * (one * (tenPowerQuotient e).1) * (tenPowerQuotient (e + 1)).2
      = q * one * (10 ^ 1 * (tenPowerQuotient e).1 * (tenPowerQuotient (e + (1 : Nat))).2) := by
        ring_nf
    _ = q * one * ((tenPowerQuotient (e + (1 : Nat))).1 * (tenPowerQuotient e).2) := by rw [hshift]
    _ = q * (one * (tenPowerQuotient (e + 1)).1) * (tenPowerQuotient e).2 := by
        ring_nf

theorem identifies_dropZeros (k : Nat) (d : Decimal) (code : Nat) :
    Identifies (Decimal.dropZeros k d) code ↔ Identifies d code := by
  induction k generalizing d with
  | zero => rfl
  | succ k ih =>
    rw [Decimal.dropZeros]
    split
    · next hzero =>
      have htens : d = ⟨10 * (d.digits / 10), d.exponent⟩ := by
        obtain ⟨digits, e⟩ := d
        congr 1
        dsimp only at hzero ⊢
        omega
      rw [ih, ← identifies_dropZero, ← htens]
    · rfl

theorem digits_dropZeros_le (k : Nat) (d : Decimal) :
    (Decimal.dropZeros k d).digits ≤ d.digits := by
  induction k generalizing d with
  | zero => exact Nat.le_refl _
  | succ k ih =>
    rw [Decimal.dropZeros]
    split
    · exact Nat.le_trans (ih _) (Nat.div_le_self _ _)
    · exact Nat.le_refl _

/-! ## The grids -/

section

variable {code : Nat}

theorem onGrid_spec {e : Int} {d : Decimal} (h : onGrid code e = some d) :
    d.exponent = e ∧ Identifies d code ∧
      d.digits ≤ unitsOf code * (tenPowerQuotient e).2 / (one * (tenPowerQuotient e).1) + 1 := by
  unfold onGrid at h
  unfold Identifies
  dsimp only at h
  generalize one = unit at h ⊢
  have hround := roundQuotient_le_succ (unitsOf code * (tenPowerQuotient e).2)
    (unit * (tenPowerQuotient e).1)
  split at h
  · next hhit =>
    cases h
    exact ⟨rfl, hhit, hround⟩
  · split at h
    · next hhit =>
      cases h
      exact ⟨rfl, hhit, Nat.le_succ _⟩
    · split at h
      · next hhit =>
        cases h
        exact ⟨rfl, hhit, Nat.le_refl _⟩
      · cases h

/-- A grid that is fine enough has a point in the interval. -/
theorem onGrid_of_fine {e : Int} (hcode : code ≠ 0)
    (h : 10 ^ 16 * (one * (tenPowerQuotient e).1) ≤ unitsOf code * (tenPowerQuotient e).2) :
    onGrid code e ≠ none := by
  obtain ⟨c, rfl⟩ : ∃ c, code = c + 1 := ⟨code - 1, by omega⟩
  obtain ⟨hup, hdown⟩ := tenPowerQuotient_pos e
  have hden : 0 < one * (tenPowerQuotient e).1 := Nat.mul_pos one_pos hup
  obtain ⟨habove, hbelow⟩ :=
    roundQuotient_near (unitsOf (c + 1) * (tenPowerQuotient e).2) hden
  have hback : readsBack (c + 1)
      (roundQuotient (unitsOf (c + 1) * (tenPowerQuotient e).2) (one * (tenPowerQuotient e).1) *
        (one * (tenPowerQuotient e).1)) (tenPowerQuotient e).2 = true := by
    have hstep := unitsOf_succ c
    have hnext := unitsOf_succ (c + 1)
    have hgap : 2 ^ scaleOf c ≤ 2 ^ scaleOf (c + 1) :=
      Nat.pow_le_pow_right (by decide) (scaleOf_mono (Nat.le_succ c))
    have hclose : one * (tenPowerQuotient e).1 < 2 ^ scaleOf c * (tenPowerQuotient e).2 := by
      have hunits := Nat.mul_le_mul_right (tenPowerQuotient e).2 (unitsOf_succ_le c)
      have hbinade : 2 * binade = 9007199254740992 := rfl
      have hpos : 0 < 2 ^ scaleOf c * (tenPowerQuotient e).2 :=
        Nat.mul_pos (Nat.two_pow_pos _) hdown
      rw [hbinade, Nat.mul_assoc] at hunits
      omega
    have hgaps := Nat.mul_le_mul_right (tenPowerQuotient e).2 hgap
    apply readsBack_of_lt
    · unfold lowerEnd
      rw [Nat.add_sub_cancel, Nat.add_mul]
      rw [hstep, Nat.add_mul] at hbelow ⊢
      omega
    · unfold upperEnd
      rw [hnext, Nat.add_mul, Nat.add_mul]
      omega
  unfold onGrid
  dsimp only
  rw [if_pos hback]
  exact Option.some_ne_none _

theorem onGrid_of_firstGrid {n : Nat} {e : Int} {d : Decimal}
    (h : firstGrid code n e = some d) : ∃ j : Nat, j < n ∧ onGrid code (e - j) = some d := by
  induction n generalizing e with
  | zero => cases h
  | succ n ih =>
    rw [firstGrid] at h
    split at h
    · next found hfound =>
      cases h
      exact ⟨0, Nat.succ_pos n, by rwa [show e - ((0 : Nat) : Int) = e by omega]⟩
    · obtain ⟨j, hj, hgrid⟩ := ih h
      refine ⟨j + 1, by omega, ?_⟩
      rwa [show e - ((j + 1 : Nat) : Int) = e - 1 - j by omega]

theorem firstGrid_ne_none {n : Nat} {e : Int} {j : Nat} (hj : j < n)
    (h : onGrid code (e - j) ≠ none) : firstGrid code n e ≠ none := by
  induction n generalizing e j with
  | zero => omega
  | succ n ih =>
    rw [firstGrid]
    split
    · exact Option.some_ne_none _
    · next hnone =>
      cases j with
      | zero =>
        rw [show e - ((0 : Nat) : Int) = e by omega] at h
        exact absurd hnone h
      | succ j =>
        apply ih (j := j) (by omega)
        rwa [show e - ((j + 1 : Nat) : Int) = e - 1 - j by omega] at h

theorem unitsOf_pos (hcode : code ≠ 0) : 0 < unitsOf code := by
  obtain ⟨c, rfl⟩ : ∃ c, code = c + 1 := ⟨code - 1, by omega⟩
  have hgap := Nat.two_pow_pos (scaleOf c)
  rw [unitsOf_succ]
  omega

/-- On the grid that lies `j` places behind the first digit a number has `j + 1` digits. -/
theorem digits_of_grid (hcode : code ≠ 0) {e : Int} {j : Nat}
    (h : leadingDigitExponent (unitsOf code) one = e + j) :
    10 ^ j * (one * (tenPowerQuotient e).1) ≤ unitsOf code * (tenPowerQuotient e).2 ∧
      unitsOf code * (tenPowerQuotient e).2 < 10 ^ (j + 1) * (one * (tenPowerQuotient e).1) := by
  obtain ⟨hlow, hhigh⟩ := leadingDigitExponent_spec (unitsOf_pos hcode) one_pos
  rw [h] at hlow hhigh
  have hshift := tenPowerQuotient_add e j
  have hdown := (tenPowerQuotient_pos (e + j)).2
  have hdown' := (tenPowerQuotient_pos e).2
  generalize (tenPowerQuotient (e + j)).1 = up at hlow hhigh hshift
  generalize (tenPowerQuotient (e + j)).2 = down at hlow hhigh hshift hdown
  generalize one = unit at hlow hhigh ⊢
  -- Both bounds are those of the first digit, times the distance between the two grids.
  constructor
  · apply Nat.le_of_mul_le_mul_right _ hdown
    calc 10 ^ j * (unit * (tenPowerQuotient e).1) * down
        = unit * (10 ^ j * (tenPowerQuotient e).1 * down) := by ring
      _ = up * unit * (tenPowerQuotient e).2 := by rw [← hshift]; ring
      _ ≤ unitsOf code * down * (tenPowerQuotient e).2 := Nat.mul_le_mul_right _ hlow
      _ = unitsOf code * (tenPowerQuotient e).2 * down := by ring
  · apply Nat.lt_of_mul_lt_mul_right (a := down)
    calc unitsOf code * (tenPowerQuotient e).2 * down
        = unitsOf code * down * (tenPowerQuotient e).2 := by ring
      _ < 10 * (up * unit) * (tenPowerQuotient e).2 := Nat.mul_lt_mul_of_pos_right hhigh hdown'
      _ = 10 * unit * (10 ^ j * (tenPowerQuotient e).1 * down) := by rw [← hshift]; ring
      _ = 10 ^ (j + 1) * (unit * (tenPowerQuotient e).1) * down := by ring

/-- A number is written with a decimal in its interval, of seventeen digits at most. -/
theorem shortest_spec (hcode : code ≠ 0) :
    Identifies (shortest code) code ∧ (shortest code).digits ≤ 10 ^ 17 := by
  have hfine : firstGrid code 17 (leadingDigitExponent (unitsOf code) one) ≠ none := by
    apply firstGrid_ne_none (j := 16) (by decide)
    apply onGrid_of_fine hcode
    exact (digits_of_grid hcode (by omega)).1
  rw [shortest, if_neg hcode]
  split
  · next d hd =>
    obtain ⟨j, hj, hgrid⟩ := onGrid_of_firstGrid hd
    obtain ⟨-, hidentifies, hdigits⟩ := onGrid_spec hgrid
    refine ⟨(identifies_dropZeros 17 d code).mpr hidentifies, ?_⟩
    have hcount := (digits_of_grid hcode (j := j)
      (e := leadingDigitExponent (unitsOf code) one - j) (by omega)).2
    have hquotient := (Nat.div_lt_iff_lt_mul
      (Nat.mul_pos one_pos (tenPowerQuotient_pos _).1)).mpr hcount
    have hpow : 10 ^ (j + 1) ≤ 10 ^ 17 := Nat.pow_le_pow_right (by decide) (by omega)
    have hdrop := digits_dropZeros_le 17 d
    omega
  · next hnone => exact absurd hnone hfine

/-- The exponent of a decimal in the interval of a finite number is moderate. -/
theorem exponent_of_identifies {d : Decimal} (hcode : code ≠ 0) (hfinite : code < infinityCode)
    (hdigits : d.digits ≤ 10 ^ 17) (h : Identifies d code) :
    0 < d.digits ∧ -400 ≤ d.exponent ∧ d.exponent ≤ 308 := by
  obtain ⟨hlow, hhigh⟩ := readsBack_le h
  have hpos : 0 < lowerEnd code := by
    have hunits := unitsOf_pos hcode
    unfold lowerEnd
    omega
  have hdown := (tenPowerQuotient_pos d.exponent).2
  have hlow' : (tenPowerQuotient d.exponent).2 ≤ lowerEnd code * (tenPowerQuotient d.exponent).2 :=
    Nat.le_mul_of_pos_left _ hpos
  have hpositive : 0 < d.digits := by
    by_contra hzero
    have hnone : d.digits = 0 := by omega
    rw [hnone, Nat.zero_mul] at hlow
    omega
  refine ⟨hpositive, ?_, ?_⟩
  · by_contra hsmall
    have hup : d.exponent.toNat = 0 := by omega
    have hexponent : 400 ≤ (-d.exponent).toNat := by omega
    have hpow := Nat.pow_le_pow_right (show 0 < 10 by decide) hexponent
    rw [tenPowerQuotient_eq, hup] at hlow hlow'
    simp only [Nat.pow_zero, Nat.mul_one] at hlow hlow'
    apply Nat.lt_irrefl (10 ^ (-d.exponent).toNat)
    calc 10 ^ (-d.exponent).toNat ≤ 2 * (d.digits * one) := Nat.le_trans hlow' hlow
      _ ≤ 2 * (10 ^ 17 * one) := Nat.mul_le_mul_left 2 (Nat.mul_le_mul_right one hdigits)
      _ < 10 ^ (-d.exponent).toNat := Nat.lt_of_lt_of_le (by decide +kernel) hpow
  · by_contra hlarge
    have hdown : (-d.exponent).toNat = 0 := by omega
    have hexponent : 309 ≤ d.exponent.toNat := by omega
    have hpow := Nat.pow_le_pow_right (show 0 < 10 by decide) hexponent
    have hmul := Nat.mul_le_mul_left 2 (Nat.mul_le_mul hpositive (Nat.mul_le_mul_left one hpow))
    rw [tenPowerQuotient_eq, hdown] at hhigh
    simp only [Nat.pow_zero, Nat.mul_one] at hhigh
    apply Nat.lt_irrefl (upperEnd code)
    calc upperEnd code ≤ upperEnd (infinityCode - 1) := upperEnd_mono (by omega)
      _ < 2 * (d.digits * (one * 10 ^ d.exponent.toNat)) :=
        Nat.lt_of_lt_of_le (by decide +kernel) hmul
      _ ≤ upperEnd code := hhigh

end

end Double

end Untagged
