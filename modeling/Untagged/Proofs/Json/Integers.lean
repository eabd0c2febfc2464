import Untagged.Json.Source
import Untagged.Proofs.Text.Utf8

/-!
# Integers are read back

An integer is written in decimal.  Its digits are all collected into the
significand, because what stands behind them cannot continue a number
(`Delimited`), and the significand stays in range because the integer does.  A
leading zero stands alone, so the zero is told from the other numbers by its first
digit.
-/

namespace Untagged.Json.Reader

/-- What stands behind a value is the end, white space, or a mark between values or
at their end. -/
def Delimited : Bytes → Prop
  | [] => True
  | b :: _ => isBlank b = true ∨ b = 44 ∨ b = 93 ∨ b = 125

/-- What stands behind a number does not continue it. -/
def Stops : Bytes → Prop
  | [] => True
  | b :: _ => isDigit b = false ∧ b ≠ 46 ∧ isExponentMark b = false

theorem Stops.not_isDigit {rest : Bytes} (h : Stops rest) :
    ∀ b ∈ rest.head?, isDigit b = false := by
  cases rest with
  | nil => exact nofun
  | cons b rest =>
    rintro _ ⟨⟩
    exact h.1

/-- What may stand behind a value continues no number. -/
theorem Delimited.stops {rest : Bytes} (h : Delimited rest) : Stops rest := by
  cases rest with
  | nil => trivial
  | cons b rest =>
    simp only [Delimited, isBlank, Bool.or_eq_true, decide_eq_true_eq] at h
    rw [Stops]
    rcases h with (((rfl | rfl) | rfl) | rfl) | rfl | rfl | rfl <;> decide

/-! ## Digits -/

/-- The byte of a character that is ASCII. -/
def charByte (c : Char) : UInt8 := UInt8.ofNat c.toNat

/-- The decimal digits of a number. -/
def decimal (n : Nat) : Bytes := (Nat.toDigits 10 n).map charByte

theorem bounds_of_isDigit {c : Char} (h : c.isDigit = true) : 48 ≤ c.toNat ∧ c.toNat ≤ 57 := by
  simp only [Char.isDigit, ge_iff_le, Bool.and_eq_true, decide_eq_true_eq, UInt32.le_iff_toNat_le]
    at h
  exact h

theorem toNat_charByte {c : Char} (h : c.isDigit = true) : (charByte c).toNat = c.toNat := by
  have hc := bounds_of_isDigit h
  rw [charByte, UInt8.toNat_ofNat']
  exact Nat.mod_eq_of_lt (by omega)

theorem charByte_ne_zero {c : Char} (h : c.isDigit = true) (hc : c ≠ '0') : charByte c ≠ 48 := by
  intro heq
  have hvalue := toNat_charByte h
  rw [heq] at hvalue
  exact hc (Char.toNat_inj.mp hvalue.symm)

theorem isDigit_charByte {c : Char} (h : c.isDigit = true) : isDigit (charByte c) = true := by
  have hc := bounds_of_isDigit h
  simp only [isDigit, Bool.and_eq_true, decide_eq_true_eq, UInt8.le_iff_toNat_le, toNat_charByte h]
  exact hc

theorem digitValue_charByte {c : Char} (h : c.isDigit = true) :
    digitValue (charByte c) = c.toNat - '0'.toNat := by
  rw [digitValue, toNat_charByte h]
  rfl

theorem isDigit_of_mem_toDigits {n : Nat} {c : Char} (h : c ∈ Nat.toDigits 10 n) :
    c.isDigit = true :=
  Nat.isDigit_of_mem_toDigits (by decide) (by decide) h

theorem isDigit_of_mem_map {cs : List Char} (h : ∀ c ∈ cs, c.isDigit = true) :
    ∀ b ∈ cs.map charByte, isDigit b = true := by
  intro b hb
  obtain ⟨c, hc, rfl⟩ := List.mem_map.mp hb
  exact isDigit_charByte (h c hc)

theorem encode_digits {cs : List Char} (h : ∀ c ∈ cs, c.isDigit = true) :
    Utf8.encode (String.ofList cs) = cs.map charByte := by
  rw [Utf8.encode_ofList]
  induction cs with
  | nil => rfl
  | cons c cs ih =>
    rw [List.forall_mem_cons] at h
    have hc := bounds_of_isDigit h.1
    rw [List.flatMap_cons, List.map_cons, ih h.2, Utf8.encodeChar_of_lt (by omega)]
    rfl

theorem encode_repr (n : Nat) : Utf8.encode n.repr = decimal n := by
  rw [Nat.repr_eq_ofList_toDigits, encode_digits, decimal]
  exact fun c hc => isDigit_of_mem_toDigits hc

/-- Digits as they may stand in front of a number: a leading zero stands alone. -/
def Whole (cs : List Char) : Prop :=
  (∀ c ∈ cs, c.isDigit = true) ∧ (cs = ['0'] ∨ ∃ c r, cs = c :: r ∧ c ≠ '0')

theorem Whole.eq_cons {cs : List Char} (h : Whole cs) : ∃ c r, cs = c :: r := by
  obtain ⟨-, rfl | ⟨c, r, rfl, -⟩⟩ := h
  · exact ⟨_, _, rfl⟩
  · exact ⟨c, r, rfl⟩

/-- Only the zero begins with the digit zero. -/
theorem toDigits_of_pos {n : Nat} (h : 0 < n) : ∃ c cs, Nat.toDigits 10 n = c :: cs ∧ c ≠ '0' := by
  induction n using Nat.strongRecOn with
  | ind n ih =>
    rw [Nat.toDigits_eq_if (by decide)]
    by_cases hn : n < 10
    · have hne : ∀ k < 10, 0 < k → Nat.digitChar k ≠ '0' := by decide
      exact ⟨_, [], if_pos hn, hne n hn h⟩
    · obtain ⟨c, cs, hcs, hc⟩ := ih (n / 10) (by omega) (by omega)
      exact ⟨c, cs ++ [Nat.digitChar (n % 10)], by rw [if_neg hn, hcs]; rfl, hc⟩

theorem whole_toDigits (n : Nat) : Whole (Nat.toDigits 10 n) := by
  refine ⟨fun c hc => isDigit_of_mem_toDigits hc, ?_⟩
  rcases Nat.eq_zero_or_pos n with rfl | hpos
  · exact .inl rfl
  · exact .inr (toDigits_of_pos hpos)

theorem spanDigits_append {digits rest : Bytes} (h : ∀ b ∈ digits, isDigit b = true)
    (hrest : ∀ b ∈ rest.head?, isDigit b = false) :
    spanDigits (digits ++ rest) = (digits, rest) := by
  induction digits with
  | nil =>
    cases rest with
    | nil => rfl
    | cons b r =>
      rw [List.nil_append, spanDigits, if_neg (by rw [hrest b rfl]; decide)]
  | cons d digits ih =>
    rw [List.forall_mem_cons] at h
    rw [List.cons_append, spanDigits, if_pos h.1, ih h.2]

/-! ## The significand -/

theorem le_ofDigitChars (cs : List Char) (m : Nat) : m ≤ Nat.ofDigitChars 10 cs m := by
  induction cs generalizing m with
  | nil => simp
  | cons c cs ih =>
    rw [Nat.ofDigitChars_cons]
    refine Nat.le_trans ?_ (ih _)
    omega

/-- Digits whose value is in range are all absorbed. -/
theorem absorb_digits {cs : List Char} (hcs : ∀ c ∈ cs, c.isDigit = true) {m : Nat}
    (hm : Nat.ofDigitChars 10 cs m ≤ 0xffff_ffff_ffff_ffff) :
    absorb m (cs.map charByte) = (Nat.ofDigitChars 10 cs m, []) := by
  induction cs generalizing m with
  | nil => rw [List.map_nil, absorb, Nat.ofDigitChars_nil]
  | cons c cs ih =>
    rw [List.forall_mem_cons] at hcs
    rw [Nat.ofDigitChars_cons] at hm ⊢
    have hfits := Nat.le_trans (le_ofDigitChars cs _) hm
    rw [List.map_cons, absorb, digitValue_charByte hcs.1]
    simp only [hfits, if_true]
    exact ih hcs.2 hm

theorem absorb_decimal {n : Nat} (h : n ≤ 0xffff_ffff_ffff_ffff) :
    absorb 0 (decimal n) = (n, []) := by
  have hvalue : Nat.ofDigitChars 10 (Nat.toDigits 10 n) 0 = n := Nat.ofDigitChars_ten_toDigits
  rw [decimal, absorb_digits, hvalue]
  · exact fun c hc => isDigit_of_mem_toDigits hc
  · rw [hvalue]
    exact h

theorem afterWhole_decimal {n : Nat} (h : n ≤ 0xffff_ffff_ffff_ffff) (negative : Bool)
    {rest : Bytes} (hrest : Delimited rest) :
    afterWhole negative (decimal n) rest = wholeNumber negative n rest := by
  rw [afterWhole, absorb_decimal h]
  cases rest with
  | nil => rfl
  | cons b r =>
    obtain ⟨-, hpoint, hmark⟩ := hrest.stops
    simp only [if_neg hpoint, hmark]
    rfl

/-- The whole digits of a number are read up to what does not continue them. -/
theorem number_whole {cs : List Char} (h : Whole cs) (negative : Bool) {rest : Bytes}
    (hrest : ∀ b ∈ rest.head?, isDigit b = false) :
    number negative (cs.map charByte ++ rest) = afterWhole negative (cs.map charByte) rest := by
  obtain ⟨hdigits, rfl | ⟨c, r, rfl, hc⟩⟩ := h
  · cases rest with
    | nil => rfl
    | cons b rest =>
      show (if isDigit b = true then _ else _) = _
      rw [hrest b rfl]
      rfl
  · rw [List.forall_mem_cons] at hdigits
    rw [List.map_cons, List.cons_append, number.eq_def]
    simp only [if_neg (charByte_ne_zero hdigits.1 hc), isDigit_charByte hdigits.1, if_true,
      spanDigits_append (isDigit_of_mem_map hdigits.2) hrest]

theorem number_decimal {n : Nat} (h : n ≤ 0xffff_ffff_ffff_ffff) (negative : Bool)
    {rest : Bytes} (hrest : Delimited rest) :
    number negative (decimal n ++ rest) = wholeNumber negative n rest := by
  rw [← afterWhole_decimal h negative hrest]
  exact number_whole (whole_toDigits n) negative hrest.stops.not_isDigit

/-! ## Integers -/

theorem ne_of_isDigit {b c : UInt8} (hb : isDigit b = true) (hc : isDigit c = false) : b ≠ c := by
  rintro rfl
  rw [hb] at hc
  cases hc

theorem not_isBlank_of_isDigit {b : UInt8} (h : isDigit b = true) : isBlank b = false := by
  simp only [isBlank, Bool.or_eq_false_iff, decide_eq_false_iff_not]
  exact ⟨⟨⟨ne_of_isDigit h (by decide), ne_of_isDigit h (by decide)⟩,
    ne_of_isDigit h (by decide)⟩, ne_of_isDigit h (by decide)⟩

theorem valueOver_of_isDigit {b : UInt8} (h : isDigit b = true)
    (inner : Option (Bytes → Except Fault (Read Json))) (r : Bytes) :
    valueOver inner (b :: r) =
      number false (b :: r) >>= fun n => .ok (.number n.1, n.2) := by
  have hskip : skipBlanks (b :: r) = b :: r := by
    rw [skipBlanks, if_neg (by rw [not_isBlank_of_isDigit h]; decide)]
  have ne {c : UInt8} (hc : isDigit c = false) : ¬ b = c := ne_of_isDigit h hc
  simp only [valueOver, hskip, h, if_true, if_neg (ne (c := 110) (by decide)),
    if_neg (ne (c := 116) (by decide)), if_neg (ne (c := 102) (by decide)),
    if_neg (ne (c := 45) (by decide))]

theorem valueOver_minus (inner : Option (Bytes → Except Fault (Read Json))) (r : Bytes) :
    valueOver inner (45 :: r) = number true r >>= fun n => .ok (.number n.1, n.2) := rfl

theorem wholeNumber_of_nat {n : Nat} {i : Integer} (hi : i.val = n) (rest : Bytes) :
    wholeNumber false n rest = .ok (.integer i, rest) := by
  have hof : Integer.ofInt? (n : Int) = some i := by rw [← hi, Integer.ofInt?_val]
  simp only [wholeNumber, Bool.false_eq_true, if_false, hof, Bool.false_and]

theorem wholeNumber_of_neg {n : Nat} (hn : 0 < n) {i : Integer} (hi : i.val = -n)
    (rest : Bytes) : wholeNumber true n rest = .ok (.integer i, rest) := by
  have hof : Integer.ofInt? (-(n : Int)) = some i := by rw [← hi, Integer.ofInt?_val]
  have hne : (n == 0) = false := by simp; omega
  simp only [wholeNumber, if_true, hof, hne, Bool.and_false, Bool.false_eq_true, if_false]

/-- The digits of a number begin with a digit. -/
theorem decimal_eq_cons (n : Nat) : ∃ b r, decimal n = b :: r ∧ isDigit b = true := by
  have hwhole := whole_toDigits n
  obtain ⟨c, r, hn⟩ := hwhole.eq_cons
  have hc : c.isDigit = true := hwhole.1 c (by rw [hn]; exact .head _)
  exact ⟨charByte c, r.map charByte, by rw [decimal, hn]; rfl, isDigit_charByte hc⟩

theorem encode_ofNat (n : Nat) : Utf8.encode (toString (Int.ofNat n)) = decimal n :=
  encode_repr n

theorem encode_negSucc (n : Nat) :
    Utf8.encode (toString (Int.negSucc n)) = 45 :: decimal (n + 1) := by
  have hminus : Utf8.encode "-" = [45] := by decide +kernel
  show Utf8.encode ("-" ++ (n + 1).repr) = _
  rw [Utf8.encode_append, encode_repr, hminus]
  rfl

/-- An integer is written with a minus sign or a digit in front. -/
theorem encode_integer_eq_cons (i : Int) :
    ∃ b r, Utf8.encode (toString i) = b :: r ∧ (b = 45 ∨ isDigit b = true) := by
  cases i with
  | ofNat n =>
    obtain ⟨b, r, hb, hdigit⟩ := decimal_eq_cons n
    exact ⟨b, r, by rw [encode_ofNat, hb], .inr hdigit⟩
  | negSucc n => exact ⟨45, _, encode_negSucc n, .inl rfl⟩

theorem valueOver_integer (inner : Option (Bytes → Except Fault (Read Json))) (i : Integer)
    {rest : Bytes} (hrest : Delimited rest) :
    valueOver inner (Utf8.encode (toString i.val) ++ rest) = .ok (.number (.integer i), rest) := by
  have hupper := i.upper
  have hlower := i.lower
  cases hi : i.val with
  | ofNat n =>
    have hn : n ≤ 0xffff_ffff_ffff_ffff := by
      rw [hi] at hupper
      exact Int.ofNat_le.mp hupper
    have hnumber := number_decimal hn false hrest
    obtain ⟨b, r, hb, hdigit⟩ := decimal_eq_cons n
    rw [encode_ofNat]
    rw [hb, List.cons_append] at hnumber ⊢
    rw [valueOver_of_isDigit hdigit, hnumber, wholeNumber_of_nat hi]
    rfl
  | negSucc n =>
    have hn : n + 1 ≤ 0xffff_ffff_ffff_ffff := by
      rw [hi] at hlower
      omega
    rw [encode_negSucc, List.cons_append, valueOver_minus, number_decimal hn true hrest,
      wholeNumber_of_neg (Nat.succ_pos n) hi]
    rfl

end Untagged.Json.Reader
