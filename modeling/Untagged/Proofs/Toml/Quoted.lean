import Untagged.Toml.Scalar

/-!
# Text between double quotes

`Escaped written meant` says what the characters between two double quotes mean: a
character stands for itself, or an escape stands for one by a letter or by its number.
The reader takes every such text as it is meant, up to the closing quote
(`lineString?_of_escaped`), and every text can be meant (`escaped_flatMap`).
-/

namespace Untagged.Toml

/-- What stands behind the backslash of an escape. -/
inductive Escape : Chars → Char → Prop
  | short {c d : Char} (h : shortEscape? c = some d) : Escape [c] d
  | number {c d : Char} {digits : Chars} (hcount : escapeDigits? c = some digits.length)
    (hdigits : ∀ x ∈ digits, isDigitIn 16 x = true) (hvalue : valueIn 16 digits = d.toNat) :
    Escape (c :: digits) d

/-- What is written between two double quotes, and what it means. -/
inductive Escaped : Chars → Chars → Prop
  | nil : Escaped [] []
  | plain {c : Char} {written meant : Chars} (hc : isPlain c = true) (hquote : c ≠ '"')
    (hslash : c ≠ '\\') (h : Escaped written meant) : Escaped (c :: written) (c :: meant)
  | escape {e written meant : Chars} {d : Char} (he : Escape e d) (h : Escaped written meant) :
    Escaped ('\\' :: (e ++ written)) (d :: meant)

/-! ## Reading -/

section

variable {rest : Chars}

/-- Digits extend the value that was read before them. -/
theorem hexValue?_append {digits : Chars} (h : ∀ x ∈ digits, isDigitIn 16 x = true)
    (value : Nat) :
    hexValue? value digits.length (digits ++ rest) =
      some (digits.foldl (fun n c => 16 * n + (hexDigit? c).getD 0) value, rest) := by
  induction digits generalizing value with
  | nil => rfl
  | cons c digits ih =>
    rw [List.forall_mem_cons] at h
    have hc := h.1
    rw [isDigitIn] at hc
    cases hdigit : hexDigit? c with
    | none => simp only [hdigit, Bool.false_eq_true] at hc
    | some k =>
      show (hexDigit? c >>= fun k => hexValue? (16 * value + k) digits.length (digits ++ rest)) = _
      rw [List.foldl_cons, hdigit]
      exact ih h.2 (16 * value + k)

theorem charOf?_toNat (c : Char) : charOf? c.toNat = some c := by
  have hvalid : c.toNat.isValidChar := c.valid
  rw [charOf?, if_pos hvalid, Char.ofNat_toNat]

theorem shortEscape?_of_escapeDigits? {c : Char} {n : Nat} (h : escapeDigits? c = some n) :
    shortEscape? c = none := by
  rw [escapeDigits?.eq_def] at h
  split at h
  · rfl
  · rfl
  · rfl
  · cases h

theorem escape?_of_escape {e : Chars} {d : Char} (h : Escape e d) :
    escape? (e ++ rest) = some (d, rest) := by
  cases h with
  | short h => simp only [List.cons_append, List.nil_append, escape?, h]
  | @number c _ digits hcount hdigits hvalue =>
    have hread : hexValue? 0 digits.length (digits ++ rest) = some (d.toNat, rest) := by
      rw [hexValue?_append hdigits, ← hvalue]
      rfl
    simp only [List.cons_append, escape?, shortEscape?_of_escapeDigits? hcount, hcount,
      Option.bind_eq_bind, Option.bind_some, hread, charOf?_toNat]

theorem basicFrom?_of_escaped {written meant : Chars} (h : Escaped written meant) {fuel : Nat}
    (hfuel : written.length < fuel) :
    basicFrom? fuel (written ++ '"' :: rest) = some (meant, rest) := by
  induction h generalizing fuel with
  | nil =>
    obtain ⟨fuel, rfl⟩ : ∃ n, fuel = n + 1 := ⟨fuel - 1, by omega⟩
    rfl
  | @plain c written meant hc hquote hslash _ ih =>
    rw [List.length_cons] at hfuel
    obtain ⟨fuel, rfl⟩ : ∃ n, fuel = n + 1 := ⟨fuel - 1, by omega⟩
    rw [List.cons_append, basicFrom?, if_neg hquote, if_neg hslash, if_pos hc,
      ih (by omega)]
    rfl
  | @escape e written meant d he _ ih =>
    rw [List.length_cons, List.length_append] at hfuel
    obtain ⟨fuel, rfl⟩ : ∃ n, fuel = n + 1 := ⟨fuel - 1, by omega⟩
    rw [List.cons_append, List.append_assoc, basicFrom?, if_neg (by decide), if_pos rfl,
      escape?_of_escape he]
    show behindText [d] (basicFrom? fuel (written ++ '"' :: rest)) = _
    rw [ih (by omega)]
    rfl

theorem lineString?_of_escaped {written meant : Chars} (h : Escaped written meant) :
    lineString? ('"' :: (written ++ '"' :: rest)) = some (String.ofList meant, rest) := by
  have hlength : written.length < (written ++ '"' :: rest).length := by
    rw [List.length_append, List.length_cons]
    omega
  rw [lineString?, basicFrom?_of_escaped h hlength]
  rfl

theorem head_ne_quote {written meant : Chars} (h : Escaped written meant) :
    ∀ t, written ≠ '"' :: t := by
  rintro t rfl
  cases h with
  | plain _ hquote => exact hquote rfl

theorem string?_eq_lineString? {s : Chars} (hbasic : ∀ t, s ≠ '"' :: '"' :: '"' :: t)
    (hliteral : ∀ t, s ≠ '\'' :: '\'' :: '\'' :: t) : string? s = lineString? s := by
  rw [string?.eq_def]
  split
  · exact absurd rfl (hbasic _)
  · exact absurd rfl (hliteral _)
  · rfl

/-- A string within one line, behind which there is no other quote. -/
theorem string?_of_escaped {written meant : Chars} (h : Escaped written meant)
    (hrest : ∀ t, rest ≠ '"' :: t) :
    string? ('"' :: (written ++ '"' :: rest)) = some (String.ofList meant, rest) := by
  rw [string?_eq_lineString? ?_ fun t heq => absurd (List.cons.inj heq).1 (by decide),
     lineString?_of_escaped h]
  intro t heq
  have htail := (List.cons.inj heq).2
  cases written with
  | nil => exact hrest t (List.cons.inj htail).2
  | cons c written =>
    have hc : c = '"' := (List.cons.inj htail).1
    exact head_ne_quote h written (hc ▸ rfl)

end

/-! ## Writing -/

/-- The digits of a number below 256 behind the letter `u` of an escape. -/
def hexDigits (n : Nat) : Chars := ['0', '0', Nat.digitChar (n / 16), Nat.digitChar (n % 16)]

/-- A character between double quotes. -/
def escapedChar (c : Char) : Chars :=
  if isPlain c && c ≠ '"' && c ≠ '\\' then [c] else '\\' :: 'u' :: hexDigits c.toNat

/-- Text between double quotes. -/
def quoted (s : String) : Chars := '"' :: (s.toList.flatMap escapedChar ++ ['"'])

theorem hexDigit?_digitChar : ∀ n < 16, hexDigit? (Nat.digitChar n) = some n := by decide

theorem escape_hexDigits {c : Char} (h : c.toNat < 256) :
    Escape ('u' :: hexDigits c.toNat) c := by
  have hhigh := hexDigit?_digitChar (c.toNat / 16) (by omega)
  have hlow := hexDigit?_digitChar (c.toNat % 16) (by omega)
  refine .number rfl ?_ ?_
  · have hzero : hexDigit? '0' = some 0 := rfl
    have hsmall (n : Nat) : n % 16 < 16 := Nat.mod_lt n (by decide)
    have hsmall' : c.toNat / 16 < 16 := by omega
    simp [hexDigits, isDigitIn, hzero, hhigh, hlow, hsmall, hsmall']
  · show 16 * (16 * 0 + (hexDigit? (Nat.digitChar (c.toNat / 16))).getD 0) +
      (hexDigit? (Nat.digitChar (c.toNat % 16))).getD 0 = c.toNat
    rw [hhigh, hlow, Option.getD_some, Option.getD_some]
    omega

/-- What may not stand for itself is a control or a mark. -/
theorem toNat_of_escaped {c : Char}
    (h : ¬ ((isPlain c && c ≠ '"' && c ≠ '\\') = true)) : c.toNat < 256 := by
  refine Nat.lt_of_not_le fun hlarge => h ?_
  have hplain : isPlain c = true := by
    simp only [isPlain, Bool.or_eq_true, Bool.and_eq_true, decide_eq_true_eq]
    omega
  have hne {d : Char} (hd : d.toNat < 256) : c ≠ d := by
    rintro rfl
    exact Nat.not_lt.mpr hlarge hd
  simp only [hplain, Bool.true_and, Bool.and_eq_true, decide_eq_true_eq]
  exact ⟨hne (by decide), hne (by decide)⟩

theorem escaped_flatMap (cs : Chars) : Escaped (cs.flatMap escapedChar) cs := by
  induction cs with
  | nil => exact .nil
  | cons c cs ih =>
    rw [List.flatMap_cons, escapedChar]
    split
    · next h =>
      simp only [Bool.and_eq_true, decide_eq_true_eq] at h
      exact .plain h.1.1 h.1.2 h.2 ih
    · next h =>
      exact .escape (escape_hexDigits (toNat_of_escaped h)) ih

end Untagged.Toml
