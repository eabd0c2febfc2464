import Untagged.Json.Writer
import Untagged.Proofs.Json.Integers
import Untagged.Proofs.Json.Stepwise

/-!
# The text of a float is read as a float

A float is written with the digits of its shortest decimal, positionally or with an
exponent.  The digits are at most seventeen with some zeros, so all of them are
collected, and what is scaled is the decimal that the text shows (`number_decimalText`).
It is in range, so every finite float is read as a finite float, the one that it is scaled
back to (`valueOver_float`).  That need not be the same one: what is scaled is rounded
more than once.
-/

namespace Untagged.Json.Reader

/-! ## Digits, points and exponents -/

section

variable {negative : Bool} {ws fs : List Char} {rest : Bytes}

/-- What a number is whose digits are read, and which may have an exponent. -/
def beyondDigits (negative : Bool) (significand : Nat) (exponent : Int) (rest : Bytes) :
    Except Fault (Read Number) :=
  match rest with
  | [] => floatNumber negative (scaled? significand exponent) []
  | b :: r =>
    if isExponentMark b then exponentPart negative significand exponent r
    else floatNumber negative (scaled? significand exponent) (b :: r)

theorem beyondDigits_of_stops (significand : Nat) (exponent : Int) (h : Stops rest) :
    beyondDigits negative significand exponent rest =
      floatNumber negative (scaled? significand exponent) rest := by
  cases rest with
  | nil => rfl
  | cons b r =>
    rw [beyondDigits, h.2.2]
    rfl

/-- Digits with a point between them: the significand is all of them, and each digit
behind the point lowers the exponent by one. -/
theorem number_point (hws : Whole ws) (hfs : ∀ c ∈ fs, c.isDigit = true) (hne : fs ≠ [])
    (hvalue : Nat.ofDigitChars 10 (ws ++ fs) 0 ≤ 0xffff_ffff_ffff_ffff)
    (hrest : ∀ b ∈ rest.head?, isDigit b = false) :
    number negative (ws.map charByte ++ 46 :: (fs.map charByte ++ rest)) =
      beyondDigits negative (Nat.ofDigitChars 10 (ws ++ fs) 0) (-(fs.length : Int)) rest := by
  rw [Nat.ofDigitChars_append] at hvalue ⊢
  have hwhole := absorb_digits hws.1 (Nat.le_trans (le_ofDigitChars fs _) hvalue)
  have hpoint : ∀ b ∈ (46 :: (fs.map charByte ++ rest)).head?, isDigit b = false := by
    intro b hb
    cases hb
    decide
  have hempty : (fs.map charByte).isEmpty = false := by
    cases fs with
    | nil => exact absurd rfl hne
    | cons c fs => rfl
  have hexponent : ((([] : Bytes).length : Nat) : Int) -
      (((fs.map charByte).length - ([] : Bytes).length : Nat) : Int) = -(fs.length : Int) := by
    simp
  rw [number_whole hws negative hpoint, afterWhole, hwhole]
  show fractionPart negative _ _ _ = _
  rw [fractionPart, spanDigits_append (isDigit_of_mem_map hfs) hrest]
  dsimp only
  rw [hempty, absorb_digits hfs hvalue]
  dsimp only
  rw [hexponent]
  rfl

/-- Digits with an exponent and no point. -/
theorem number_mark (hws : Whole ws)
    (hvalue : Nat.ofDigitChars 10 ws 0 ≤ 0xffff_ffff_ffff_ffff) (r : Bytes) :
    number negative (ws.map charByte ++ 101 :: r) =
      exponentPart negative (Nat.ofDigitChars 10 ws 0) 0 r := by
  have hmark : ∀ b ∈ (101 :: r).head?, isDigit b = false := by
    intro b hb
    cases hb
    decide
  rw [number_whole hws negative hmark, afterWhole, absorb_digits hws.1 hvalue]
  rfl

theorem exponentDigits_append {cs : List Char} (hcs : ∀ c ∈ cs, c.isDigit = true)
    (significand : Nat) (start : Int) (up : Bool) {exponent : Nat}
    (hvalue : Nat.ofDigitChars 10 cs exponent ≤ maxExponent)
    (hrest : ∀ b ∈ rest.head?, isDigit b = false) :
    exponentDigits negative significand start up exponent (cs.map charByte ++ rest) =
      floatNumber negative
        (scaled? significand (shifted start up (Nat.ofDigitChars 10 cs exponent))) rest := by
  induction cs generalizing exponent with
  | nil =>
    rw [List.map_nil, List.nil_append, Nat.ofDigitChars_nil]
    cases rest with
    | nil => rfl
    | cons b r =>
      rw [exponentDigits, hrest b rfl]
      rfl
  | cons c cs ih =>
    rw [List.forall_mem_cons] at hcs
    rw [Nat.ofDigitChars_cons] at hvalue ⊢
    have hfits := Nat.le_trans (le_ofDigitChars cs _) hvalue
    rw [List.map_cons, List.cons_append, exponentDigits, if_pos (isDigit_charByte hcs.1),
      digitValue_charByte hcs.1]
    dsimp only
    rw [if_pos hfits]
    exact ih hcs.2 hvalue

/-- The byte of the sign of an exponent. -/
def signByte (up : Bool) : UInt8 := if up then 43 else 45

theorem exponentPart_decimal (significand : Nat) (start : Int) (up : Bool) {exponent : Nat}
    (hexponent : exponent ≤ maxExponent) (hrest : ∀ b ∈ rest.head?, isDigit b = false) :
    exponentPart negative significand start (signByte up :: (decimal exponent ++ rest)) =
      floatNumber negative (scaled? significand (shifted start up exponent)) rest := by
  have hsign : exponentSign (signByte up :: (decimal exponent ++ rest)) =
      (up, decimal exponent ++ rest) := by
    cases up with
    | true => rfl
    | false => rfl
  have hvalue : Nat.ofDigitChars 10 (Nat.toDigits 10 exponent) 0 = exponent :=
    Nat.ofDigitChars_ten_toDigits
  obtain ⟨c, cs, hcs⟩ := (whole_toDigits exponent).eq_cons
  have hdigits := (whole_toDigits exponent).1
  rw [hcs, List.forall_mem_cons] at hdigits
  rw [hcs, Nat.ofDigitChars_cons, Nat.mul_zero, Nat.zero_add] at hvalue
  rw [exponentPart, hsign, decimal, hcs, List.map_cons, List.cons_append]
  dsimp only
  rw [if_pos (isDigit_charByte hdigits.1), digitValue_charByte hdigits.1,
    exponentDigits_append hdigits.2 _ _ _ (by rwa [hvalue]) hrest, hvalue]

end

/-! ## The text of a decimal -/

section

open Double (plainText scientificText decimalText)

variable {n : Nat} {negative : Bool} {rest : Bytes}

theorem encode_point : Utf8.encode "." = [46] ∧ Utf8.encode ".0" = [46, 48] ∧
    Utf8.encode "0." = [48, 46] ∧ Utf8.encode "e" = [101] ∧ Utf8.encode "+" = [43] ∧
    Utf8.encode "-" = [45] := by
  decide +kernel

/-- The text is digits with a point between them, which make up `significand`, and the
last of them stands at `exponent`. -/
structure HasPoint (text : String) (significand : Nat) (exponent : Int) : Prop where
  digits : ∃ ws fs : List Char,
    Utf8.encode text = ws.map charByte ++ 46 :: fs.map charByte ∧ Whole ws ∧
      (∀ c ∈ fs, c.isDigit = true) ∧ fs ≠ [] ∧
      Nat.ofDigitChars 10 (ws ++ fs) 0 = significand ∧ -(fs.length : Int) = exponent

theorem HasPoint.number {text : String} {significand : Nat} {exponent : Int}
    (h : HasPoint text significand exponent) (hfits : significand ≤ 0xffff_ffff_ffff_ffff)
    (negative : Bool) {rest : Bytes} (hrest : Delimited rest) :
    Reader.number negative (Utf8.encode text ++ rest) =
      floatNumber negative (scaled? significand exponent) rest := by
  obtain ⟨ws, fs, htext, hws, hfs, hne, rfl, rfl⟩ := h.digits
  rw [htext, List.append_assoc, List.cons_append,
    number_point hws hfs hne hfits hrest.stops.not_isDigit, beyondDigits_of_stops _ _ hrest.stops]

theorem isDigit_of_mem_replicate (k : Nat) : ∀ c ∈ List.replicate k '0', c.isDigit = true := by
  intro c hc
  rw [List.eq_of_mem_replicate hc]
  decide

section

variable {cs : List Char} {n k : Nat}

/-- The point stands behind all digits and some zeros. -/
theorem plainText_filled (hcs : Whole cs) (hvalue : Nat.ofDigitChars 10 cs 0 = n)
    (hzero : cs = ['0'] → k = 0) (hlength : cs.length ≤ k + 1) :
    HasPoint (plainText (String.ofList cs) k) (n * 10 ^ (k + 2 - cs.length)) (-1) := by
  have hall : ∀ c ∈ cs ++ List.replicate (k + 1 - cs.length) '0', c.isDigit = true :=
    List.forall_mem_append.mpr ⟨hcs.1, isDigit_of_mem_replicate _⟩
  refine ⟨cs ++ List.replicate (k + 1 - cs.length) '0', ['0'], ?_, ⟨hall, ?_⟩,
    List.forall_mem_singleton.mpr rfl,
    List.cons_ne_nil _ _, ?_, rfl⟩
  · show Utf8.encode (if (String.ofList cs).length ≤ k + 1 then _ else _) = _
    rw [String.length_ofList, if_pos hlength, Utf8.encode_append, ← String.ofList_append,
      encode_digits hall, encode_point.2.1]
    rfl
  · rcases hcs.2 with rfl | ⟨c, r, rfl, hc⟩
    · rw [hzero rfl]
      exact .inl rfl
    · exact .inr ⟨c, _, rfl, hc⟩
  · have hpower : k + 2 - cs.length = k + 1 - cs.length + 1 := by omega
    have hzeros : ['0'] = List.replicate 1 '0' := rfl
    rw [hzeros, Nat.ofDigitChars_append, Nat.ofDigitChars_append, hvalue,
      Nat.ofDigitChars_replicate_zero, Nat.ofDigitChars_replicate_zero, hpower, Nat.pow_succ]
    ring

/-- The point stands between the digits. -/
theorem plainText_split (hcs : Whole cs) (hvalue : Nat.ofDigitChars 10 cs 0 = n)
    (hlength : k + 1 < cs.length) :
    HasPoint (plainText (String.ofList cs) k) n (k + 1 - cs.length) := by
  have htake : ∀ c ∈ cs.take (k + 1), c.isDigit = true :=
    fun c hc => hcs.1 c (List.mem_of_mem_take hc)
  have hdrop : ∀ c ∈ cs.drop (k + 1), c.isDigit = true :=
    fun c hc => hcs.1 c (List.mem_of_mem_drop hc)
  refine ⟨cs.take (k + 1), cs.drop (k + 1), ?_, ⟨htake, ?_⟩, hdrop, ?_, ?_, ?_⟩
  · show Utf8.encode (if (String.ofList cs).length ≤ k + 1 then _ else _) = _
    rw [String.length_ofList, if_neg (by omega), String.toList_ofList, Utf8.encode_append,
      Utf8.encode_append, encode_digits htake, encode_digits hdrop, encode_point.1,
      List.append_assoc]
    rfl
  · rcases hcs.2 with rfl | ⟨c, r, rfl, hc⟩
    · simp at hlength
    · exact .inr ⟨c, r.take k, rfl, hc⟩
  · intro hnil
    have hle := List.drop_eq_nil_iff.mp hnil
    omega
  · rw [List.take_append_drop, hvalue]
  · rw [List.length_drop]
    omega

/-- The point and some zeros stand before the digits. -/
theorem plainText_small (hcs : Whole cs) (hvalue : Nat.ofDigitChars 10 cs 0 = n) :
    HasPoint (plainText (String.ofList cs) (Int.negSucc k)) n (-(k + cs.length)) := by
  refine ⟨['0'], List.replicate k '0' ++ cs, ?_, ⟨List.forall_mem_singleton.mpr rfl, .inl rfl⟩,
    List.forall_mem_append.mpr ⟨isDigit_of_mem_replicate k, hcs.1⟩, ?_, ?_, ?_⟩
  · rw [plainText, Utf8.encode_append, Utf8.encode_append,
      encode_digits (isDigit_of_mem_replicate k), encode_digits hcs.1, encode_point.2.2.1,
      List.map_append, List.append_assoc]
    rfl
  · obtain ⟨c, r, rfl⟩ := hcs.eq_cons
    simp
  · rw [Nat.ofDigitChars_append, Nat.ofDigitChars_append, Nat.ofDigitChars_replicate_zero]
    exact hvalue
  · rw [List.length_append, List.length_replicate]
    omega

end

theorem lt_pow_length_toDigits (n : Nat) : n < 10 ^ (Nat.toDigits 10 n).length := by
  by_cases hzero : n = 0
  · rw [hzero]
    decide
  · have hcount := Decimal.lt_pow_digitCount n
    rwa [Decimal.digitCount, if_neg hzero] at hcount

/-- A decimal that is written positionally, with its last digit at `last`: a whole number
gets a zero behind the point. -/
theorem plainText_hasPoint {n : Nat} {exponent last : Int} (hbelow : exponent < 16) (hzero : n = 0 → exponent = 0)
    (hlast : exponent + 1 - (Nat.toDigits 10 n).length = last) :
    (0 ≤ last ∧ n * 10 ^ (last.toNat + 1) ≤ 10 ^ 17 ∧
        HasPoint (plainText (toString n) exponent) (n * 10 ^ (last.toNat + 1)) (-1)) ∨
      (last < 0 ∧ HasPoint (plainText (toString n) exponent) n last) := by
  have hwhole := whole_toDigits n
  have hlt := lt_pow_length_toDigits n
  have hvalue : Nat.ofDigitChars 10 (Nat.toDigits 10 n) 0 = n := Nat.ofDigitChars_ten_toDigits
  rw [Nat.toString_eq_ofList_toDigits]
  generalize Nat.toDigits 10 n = cs at hwhole hlt hvalue hlast ⊢
  have hpos : 0 < cs.length := by
    obtain ⟨c, r, rfl⟩ := hwhole.eq_cons
    exact Nat.succ_pos _
  cases exponent with
  | ofNat k =>
    rw [Int.ofNat_eq_natCast] at hbelow hzero hlast ⊢
    rcases Nat.lt_or_ge (k + 1) cs.length with hlength | hlength
    · rw [← hlast]
      exact .inr ⟨by omega, plainText_split hwhole hvalue hlength⟩
    · have hzeros : last.toNat + 1 = k + 2 - cs.length := by omega
      have hfits : n * 10 ^ (k + 2 - cs.length) ≤ 10 ^ 17 := by
        calc n * 10 ^ (k + 2 - cs.length)
            ≤ 10 ^ cs.length * 10 ^ (k + 2 - cs.length) :=
              Nat.mul_le_mul_right _ (Nat.le_of_lt hlt)
          _ = 10 ^ (k + 2) := by
              rw [← Nat.pow_add]
              congr 1
              omega
          _ ≤ 10 ^ 17 := Nat.pow_le_pow_right (by decide) (by omega)
      refine .inl ⟨by omega, ?_⟩
      rw [hzeros]
      refine ⟨hfits, plainText_filled hwhole hvalue (fun hcs => ?_) hlength⟩
      rw [hcs] at hvalue
      exact Int.ofNat_eq_zero.mp (hzero hvalue.symm)
  | negSucc k =>
    have hexponent : last = -(k + cs.length) := by omega
    rw [hexponent]
    exact .inr ⟨by omega, plainText_small hwhole hvalue⟩

/-- Digits with the point behind the first, and none if there is only one. -/
theorem number_mantissa {cs : List Char} (hcs : Whole cs)
    (hfits : Nat.ofDigitChars 10 cs 0 ≤ 0xffff_ffff_ffff_ffff) (negative : Bool) (r : Bytes) :
    number negative (Utf8.encode
        (if cs.length ≤ 1 then String.ofList cs
          else String.ofList (cs.take 1) ++ "." ++ String.ofList (cs.drop 1)) ++ 101 :: r) =
      exponentPart negative (Nat.ofDigitChars 10 cs 0) (1 - cs.length) r := by
  by_cases hlength : cs.length ≤ 1
  · have hstart : (1 : Int) - cs.length = 0 := by
      obtain ⟨c, t, rfl⟩ := hcs.eq_cons
      simp only [List.length_cons] at hlength ⊢
      omega
    rw [if_pos hlength, encode_digits hcs.1, number_mark hcs hfits, hstart]
  · have htake : ∀ c ∈ cs.take 1, c.isDigit = true := fun c hc => hcs.1 c (List.mem_of_mem_take hc)
    have hdrop : ∀ c ∈ cs.drop 1, c.isDigit = true := fun c hc => hcs.1 c (List.mem_of_mem_drop hc)
    have hne : cs.drop 1 ≠ [] := by
      intro hnil
      have hle := List.drop_eq_nil_iff.mp hnil
      omega
    have hfirst : Whole (cs.take 1) := by
      refine ⟨htake, ?_⟩
      rcases hcs.2 with rfl | ⟨c, t, rfl, hc⟩
      · exact .inl rfl
      · exact .inr ⟨c, [], rfl, hc⟩
    have hmark : ∀ b ∈ (101 :: r).head?, isDigit b = false := by
      intro b hb
      cases hb
      decide
    have hstart : (1 : Int) - cs.length = -((cs.drop 1).length : Int) := by
      rw [List.length_drop]
      omega
    rw [if_neg hlength, Utf8.encode_append, Utf8.encode_append, encode_digits htake,
      encode_digits hdrop, encode_point.1]
    simp only [List.append_assoc, List.cons_append, List.nil_append]
    rw [number_point hfirst hdrop hne (by rwa [List.take_append_drop]) hmark,
      List.take_append_drop, hstart]
    rfl

theorem exponentPart_signed (significand : Nat) (start : Int) {exponent : Int}
    (hexponent : exponent.natAbs ≤ maxExponent) (negative : Bool) {rest : Bytes}
    (hrest : Delimited rest) :
    exponentPart negative significand start
        (Utf8.encode (if exponent < 0 then "-" else "+") ++ (decimal exponent.natAbs ++ rest)) =
      floatNumber negative (scaled? significand (start + exponent)) rest := by
  have hstops := hrest.stops.not_isDigit
  by_cases hneg : exponent < 0
  · have hshifted : shifted start false exponent.natAbs = start + exponent := by
      show start - (exponent.natAbs : Int) = _
      omega
    rw [if_pos hneg, encode_point.2.2.2.2.2, ← hshifted]
    exact exponentPart_decimal _ _ false hexponent hstops
  · have hshifted : shifted start true exponent.natAbs = start + exponent := by
      show start + (exponent.natAbs : Int) = _
      omega
    rw [if_neg hneg, encode_point.2.2.2.2.1, ← hshifted]
    exact exponentPart_decimal _ _ true hexponent hstops

/-- A decimal that is written with an exponent is scaled as it is. -/
theorem number_scientificText {n : Nat} (hn : n ≤ 0xffff_ffff_ffff_ffff) {exponent : Int}
    (hexponent : exponent.natAbs ≤ maxExponent) (negative : Bool) {rest : Bytes}
    (hrest : Delimited rest) :
    number negative (Utf8.encode (scientificText (toString n) exponent) ++ rest) =
      floatNumber negative (scaled? n (exponent + 1 - (Nat.toDigits 10 n).length)) rest := by
  have hvalue : Nat.ofDigitChars 10 (Nat.toDigits 10 n) 0 = n := Nat.ofDigitChars_ten_toDigits
  have htail : Utf8.encode (toString exponent.natAbs) = decimal exponent.natAbs := encode_repr _
  have hmantissa := number_mantissa (whole_toDigits n) (by rwa [hvalue]) negative
  have hsum : exponent + 1 - ((Nat.toDigits 10 n).length : Int) =
      1 - ((Nat.toDigits 10 n).length : Int) + exponent := by omega
  rw [hvalue] at hmantissa
  rw [hsum, ← exponentPart_signed n _ hexponent negative hrest, ← hmantissa, scientificText,
    Utf8.encode_append, Utf8.encode_append, Utf8.encode_append, htail, encode_point.2.2.2.1,
    Nat.toString_eq_ofList_toDigits, String.length_ofList, String.toList_ofList]
  simp only [List.append_assoc, List.cons_append, List.nil_append]

/-! ## The text of a float -/

/-- A decimal is read as its text shows it. -/
theorem number_decimalText {d : Decimal} (hdigits : d.digits ≤ 10 ^ 17)
    (hzero : d.digits = 0 → d.exponent = 0)
    (hexponent : -400 ≤ d.exponent ∧ d.exponent ≤ 308) :
    d.shown.digits ≤ 10 ^ 17 ∧
      ∀ negative rest, Delimited rest →
        number negative (Utf8.encode (decimalText d) ++ rest) =
          floatNumber negative (scaled? d.shown.digits d.shown.exponent) rest := by
  have hleading : (if d.digits = 0 then 0 else d.leadingExponent) + 1 -
      ((Nat.toDigits 10 d.digits).length : Int) = d.exponent := by
    by_cases hnone : d.digits = 0
    · rw [if_pos hnone, hnone, hzero hnone]
      rfl
    · rw [if_neg hnone, Decimal.leadingExponent, Decimal.digitCount, if_neg hnone]
      omega
  have hcount : (Nat.toDigits 10 d.digits).length ≤ 18 := by
    by_cases hnone : d.digits = 0
    · rw [hnone]
      decide
    · have hle := Decimal.digitCount_le (k := 18) (show d.digits < 10 ^ 18 by omega)
      rwa [Decimal.digitCount, if_neg hnone] at hle
  have hlength : 0 < (Nat.toDigits 10 d.digits).length := by
    obtain ⟨c, r, hcs⟩ := (whole_toDigits d.digits).eq_cons
    rw [hcs]
    exact Nat.succ_pos _
  have hfirst : d.digits = 0 → (if d.digits = 0 then 0 else d.leadingExponent) = 0 :=
    fun h => if_pos h
  have hshown := d.shown_cases
  have hbelow : Double.plainBelow = 16 := rfl
  have hfrom : Double.plainFrom = -5 := rfl
  rw [decimalText]
  generalize (if d.digits = 0 then 0 else d.leadingExponent) = exponent
    at hleading hfirst hshown ⊢
  split
  · next hrange =>
    obtain ⟨hwhole, hfits, hpoint⟩ | ⟨hpart, hpoint⟩ :=
      plainText_hasPoint hrange.2 hfirst hleading
    · have hfilled : d.shown = ⟨d.digits * 10 ^ (d.exponent.toNat + 1), -1⟩ := by
        rcases hshown with ⟨-, -, h⟩ | ⟨hnot, -⟩
        · exact h
        · exact absurd ⟨hwhole, hrange.2⟩ hnot
      rw [hfilled]
      exact ⟨hfits, fun negative rest hrest => hpoint.number (by omega) negative hrest⟩
    · have hsame : d.shown = d := by
        rcases hshown with ⟨hwhole, -, -⟩ | ⟨-, h⟩
        · omega
        · exact h
      rw [hsame]
      exact ⟨hdigits, fun negative rest hrest => hpoint.number (by omega) negative hrest⟩
  · next hrange =>
    have hmax : exponent.natAbs ≤ maxExponent := by
      have hvalue : maxExponent = 2147483647 := rfl
      omega
    have hsame : d.shown = d := by
      rcases hshown with ⟨hwhole, hplain, -⟩ | ⟨-, h⟩
      · omega
      · exact h
    rw [hsame]
    refine ⟨hdigits, fun negative rest hrest => ?_⟩
    rw [number_scientificText (by omega) hmax negative hrest, hleading]

theorem isFinite_signed {f : Double} (h : f.isFinite = true) (negative : Bool) :
    (signed negative f).isFinite = true := by
  cases negative with
  | false => exact h
  | true =>
    have hcode : f.code < Double.infinityCode := of_decide_eq_true h
    have hrange := Double.infinityCode_lt
    show decide ((f.negate).code < Double.infinityCode) = true
    rw [Double.negate, Double.code_ofCode (by omega)]
    exact h

theorem floatNumber_some {f : Double} {negative : Bool}
    (h : (signed negative f).isFinite = true) (rest : Bytes) :
    floatNumber negative (some f) rest = .ok (.float ⟨signed negative f, h⟩, rest) := by
  rw [floatNumber, Option.bind_some, FiniteDouble.ofDouble?, dif_pos h]

/-- What a finite number is written with: a decimal that is moderate, and in range. -/
theorem shortest_moderate {code : Nat} (hfinite : code < Double.infinityCode) :
    (Double.shortest code).digits ≤ 10 ^ 17 ∧
      ((Double.shortest code).digits = 0 → (Double.shortest code).exponent = 0) ∧
      (-400 ≤ (Double.shortest code).exponent ∧ (Double.shortest code).exponent ≤ 308) ∧
      ∃ f, scaled? (Double.shortest code).digits (Double.shortest code).exponent = some f ∧
        f.isFinite = true := by
  by_cases hcode : code = 0
  · have hzero : scaled? 0 0 = some Double.zero := by decide +kernel
    rw [hcode]
    exact ⟨by decide, fun _ => rfl, by decide, _, hzero, by decide⟩
  · obtain ⟨hidentifies, hdigits⟩ := Double.shortest_spec hcode
    obtain ⟨hpos, hexponent⟩ := Double.exponent_of_identifies hcode hfinite hdigits hidentifies
    exact ⟨hdigits, fun hzero => by omega, hexponent, scaled?_shortest hcode hfinite⟩

/-- What the text of a decimal shows is scaled to the last quotient, rounded. -/
theorem scaled?_shown {d : Decimal} (hfits : d.shown.digits ≤ 10 ^ 17)
    (hzero : d.digits = 0 → d.exponent = 0) (hexponent : -400 ≤ d.exponent ∧ d.exponent ≤ 308)
    (hscaled : ∃ f, scaled? d.digits d.exponent = some f ∧ f.isFinite = true) :
    scaled? d.shown.digits d.shown.exponent =
        some (Double.ofQuotient false d.shown.lastQuotient.1 d.shown.lastQuotient.2) ∧
      (Double.ofQuotient false d.shown.lastQuotient.1 d.shown.lastQuotient.2).isFinite = true := by
  rcases d.shown_eq_or with hsame | hdown
  · rw [hsame]
    obtain ⟨f, hf, hfinite⟩ := hscaled
    obtain rfl := scaled?_eq_some (by omega) hexponent.2 (by omega) hf
    exact ⟨hf, hfinite⟩
  · generalize d.shown = t at hfits hdown ⊢
    have hbits : t.digits ≤ 0xffff_ffff_ffff_ffff := by omega
    obtain ⟨f, hf, hfinite⟩ := scaled?_down hbits (show t.exponent < 0 by omega)
    obtain rfl := scaled?_eq_some (d := t) (by omega) (by omega) (by omega) hf
    exact ⟨hf, hfinite⟩

theorem isFinite_scaledBack {x : Double} (h : x.isFinite = true) :
    x.scaledBack.isFinite = true := by
  obtain ⟨hdigits, hzero, hexponent, hscaled⟩ := shortest_moderate (of_decide_eq_true h)
  have hfits := (number_decimalText hdigits hzero hexponent).1
  have hfinite := isFinite_signed (scaled?_shown hfits hzero hexponent hscaled).2 x.isNegative
  rwa [Double.signed_ofQuotient] at hfinite

/-- The digits of a finite float are read as the float that it is scaled back to. -/
theorem number_shortest {x : Double} (h : x.isFinite = true) {rest : Bytes}
    (hrest : Delimited rest) :
    number x.isNegative (Utf8.encode (decimalText (Double.shortest x.code)) ++ rest) =
      .ok (.float ⟨x.scaledBack, isFinite_scaledBack h⟩, rest) := by
  obtain ⟨hdigits, hzero, hexponent, hscaled⟩ := shortest_moderate (of_decide_eq_true h)
  obtain ⟨hfits, hread⟩ := number_decimalText hdigits hzero hexponent
  obtain ⟨hshown, hfinite⟩ := scaled?_shown hfits hzero hexponent hscaled
  rw [hread x.isNegative rest hrest, hshown,
    floatNumber_some (isFinite_signed hfinite x.isNegative)]
  simp only [Double.signed_ofQuotient]
  rfl

theorem eq_cons_of_number {negative : Bool} {s : Bytes} {p : Read Number}
    (h : number negative s = .ok p) : ∃ b r, s = b :: r ∧ isDigit b = true := by
  cases s with
  | nil => cases h
  | cons b r =>
    refine ⟨b, r, rfl, ?_⟩
    rw [number.eq_def] at h
    dsimp only at h
    by_cases hzero : b = 48
    · rw [hzero]
      decide
    · rw [if_neg hzero] at h
      by_contra hdigit
      rw [if_neg hdigit] at h
      cases h

/-- A finite float is written with a minus sign or a digit in front, and its text is read
as the float that it is scaled back to. -/
theorem valueOver_float {x : Double} (h : x.isFinite = true) :
    (∃ b r, Utf8.encode x.toText = b :: r ∧ (b = 45 ∨ isDigit b = true)) ∧
      ∀ inner rest, Delimited rest → valueOver inner (Utf8.encode x.toText ++ rest) =
        .ok (.number (.float ⟨x.scaledBack, isFinite_scaledBack h⟩), rest) := by
  have hread {rest : Bytes} (hrest : Delimited rest) := number_shortest h hrest
  rw [Double.toText, Utf8.encode_append]
  cases hsign : x.isNegative with
  | true =>
    rw [hsign] at hread
    rw [if_pos rfl, encode_point.2.2.2.2.2, List.singleton_append]
    refine ⟨⟨45, _, rfl, .inl rfl⟩, fun inner rest hrest => ?_⟩
    rw [List.cons_append, valueOver_minus, hread hrest]
    rfl
  | false =>
    rw [hsign] at hread
    have hplain : Utf8.encode (if false = true then "-" else "") = [] := by decide +kernel
    have hnothing : Delimited [] := trivial
    obtain ⟨b, r, hb, hdigit⟩ := eq_cons_of_number (hread hnothing)
    rw [List.append_nil] at hb
    rw [hplain, List.nil_append, hb]
    refine ⟨⟨b, r, rfl, .inr hdigit⟩, fun inner rest hrest => ?_⟩
    have hnumber := hread hrest
    rw [hb, List.cons_append] at hnumber
    rw [List.cons_append, valueOver_of_isDigit hdigit, hnumber]
    rfl

end

end Untagged.Json.Reader
