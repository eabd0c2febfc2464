import Mathlib.Data.List.TakeDrop
import Untagged.Proofs.Json.Integers
import Untagged.Toml.Scalar

/-!
# Truth values and integers

A word ends where a character stands that cannot go on with it.  The decimal spelling
of an integer is its word: it begins like no date and no time of day, for a number has
no mark behind its first digits, and like no number of another base.
-/

namespace Untagged.Toml

open Json.Reader (Whole isDigit_of_mem_toDigits whole_toDigits)

/-! ## Words -/

theorem span_append {p : Char → Bool} {w rest : Chars} (hw : ∀ c ∈ w, p c = true)
    (hrest : ∀ c ∈ rest.head?, p c = false) : (w ++ rest).span p = (w, rest) := by
  rw [List.span_eq_takeWhile_dropWhile, List.takeWhile_append_of_pos hw,
    List.dropWhile_append_of_pos hw]
  cases rest with
  | nil => simp
  | cons c rest =>
    have hc : ¬ p c = true := by simp [hrest c rfl]
    rw [List.takeWhile_cons_of_neg hc, List.dropWhile_cons_of_neg hc, List.append_nil]

theorem word?_append {w rest : Chars} {v : Toml} (hw : ∀ c ∈ w, isWordChar c = true)
    (hrest : ∀ c ∈ rest.head?, isWordChar c = false) (hdate : isDate w = false)
    (hv : ofWord? w = some v) : word? (w ++ rest) = some (v, rest) := by
  simp only [word?, span_append hw hrest]
  split
  · simp only [hdate, Bool.false_and, Bool.false_eq_true, if_false, hv, Option.map_some]
  · rw [hv]
    rfl

/-! ## Decimal digits -/

section

variable {cs : Chars} (h : ∀ c ∈ cs, c.isDigit = true)

include h

theorem not_mem_of_digits {c : Char} (hc : c.isDigit = false) : c ∉ cs := by
  intro hmem
  rw [h c hmem] at hc
  cases hc

theorem grouped?_of_digits (hne : cs ≠ []) : grouped? Char.isDigit cs = some cs := by
  induction cs with
  | nil => exact absurd rfl hne
  | cons c cs ih =>
    rw [List.forall_mem_cons] at h
    cases cs with
    | nil => rw [grouped?, if_pos h.1]
    | cons d cs =>
      have hd : d ≠ '_' := by
        rintro rfl
        exact not_mem_of_digits h.2 rfl (.head _)
      rw [grouped?, if_pos h.1, ih h.2 nofun]
      · rfl
      · exact hd

theorem valueIn_of_digits (n : Nat) :
    cs.foldl (fun n c => 10 * n + (hexDigit? c).getD 0) n = Nat.ofDigitChars 10 cs n := by
  induction cs generalizing n with
  | nil => rw [List.foldl_nil, Nat.ofDigitChars_nil]
  | cons c cs ih =>
    rw [List.forall_mem_cons] at h
    have hc : hexDigit? c = some (c.toNat - 48) := by
      have hdigit := h.1
      rw [Char.isDigit] at hdigit
      exact if_pos hdigit
    rw [List.foldl_cons, Nat.ofDigitChars_cons, ih h.2, hc]
    rfl

/-- What is left behind some of the digits are digits. -/
theorem digits?_suffix {value n k : Nat} {rest : Chars} (hread : digits? value n cs = some (k, rest)) :
    ∀ c ∈ rest, c.isDigit = true := by
  induction n generalizing value cs with
  | zero =>
    cases hread
    exact h
  | succ n ih =>
    cases cs with
    | nil => cases hread
    | cons c cs =>
      rw [List.forall_mem_cons] at h
      rw [digits?, if_pos h.1] at hread
      exact ih h.2 hread

theorem expect?_of_digits {c : Char} (hc : c.isDigit = false) : expect? c cs = none := by
  cases cs with
  | nil => rfl
  | cons d cs =>
    have hd : d ≠ c := by
      rintro rfl
      exact not_mem_of_digits h hc (.head _)
    rw [expect?, if_neg hd]

theorem date?_of_digits : date? cs = none := by
  rw [date?]
  cases hyear : digits? 0 4 cs with
  | none => rfl
  | some p =>
    have hrest := expect?_of_digits (digits?_suffix h hyear) (c := '-') rfl
    simp only [Option.bind_eq_bind, Option.bind_some, hrest, Option.bind_none]

theorem clock?_of_digits : clock? cs = none := by
  rw [clock?, pair?]
  cases hhour : digits? 0 2 cs with
  | none => rfl
  | some p =>
    have hrest := expect?_of_digits (digits?_suffix h hhour) (c := ':') rfl
    simp only [Option.bind_eq_bind, Option.bind_some]
    split
    · simp only [Option.bind_some, hrest, Option.bind_none]
    · rfl

end

/-! ## Integers -/

theorem signOf_of_digits {cs : Chars} (h : ∀ c ∈ cs, c.isDigit = true) : signOf cs = (false, cs) := by
  rw [signOf.eq_def]
  split
  · exact absurd (.head _) (not_mem_of_digits h (c := '+') rfl)
  · exact absurd (.head _) (not_mem_of_digits h (c := '-') rfl)
  · rfl

theorem wholeDigits?_of_whole {cs : Chars} (h : Whole cs) : wholeDigits? cs = some cs := by
  obtain ⟨c, r, hcs⟩ := h.eq_cons
  have hgrouped := grouped?_of_digits h.1 (by rw [hcs]; nofun)
  rw [wholeDigits?, hgrouped]
  show (if _ then _ else _) = _
  rw [if_neg]
  obtain ⟨-, rfl | ⟨d, r, rfl, hd⟩⟩ := h
  · decide
  · simp [hd]

theorem valueIn_toDigits (n : Nat) : valueIn 10 (Nat.toDigits 10 n) = n := by
  rw [valueIn, valueIn_of_digits fun _ => isDigit_of_mem_toDigits]
  exact Nat.ofDigitChars_ten_toDigits

theorem integer?_toDigits (n : Nat) : integer? (Nat.toDigits 10 n) = some (n : Int) := by
  have hwhole := whole_toDigits n
  have hvalue : (wholeDigits? (signOf (Nat.toDigits 10 n)).2 >>= fun ds =>
      some (withSign (signOf (Nat.toDigits 10 n)).1 (valueIn 10 ds))) = some (n : Int) := by
    rw [signOf_of_digits hwhole.1]
    simp only [wholeDigits?_of_whole hwhole, Option.bind_eq_bind, Option.bind_some,
      valueIn_toDigits]
    rfl
  generalize Nat.toDigits 10 n = cs at hwhole hvalue
  have hmark {c : Char} (hc : c.isDigit = false) (s : Chars) : cs ≠ '0' :: c :: s := by
    rintro rfl
    exact not_mem_of_digits hwhole.1 hc (.tail _ (.head _))
  rw [integer?.eq_def]
  split
  · exact absurd rfl (hmark rfl _)
  · exact absurd rfl (hmark rfl _)
  · exact absurd rfl (hmark rfl _)
  · exact hvalue

theorem integer?_minus (n : Nat) :
    integer? ('-' :: Nat.toDigits 10 n) = some (-(n : Int)) := by
  show (wholeDigits? (Nat.toDigits 10 n) >>= fun ds => some (withSign true (valueIn 10 ds))) = _
  rw [wholeDigits?_of_whole (whole_toDigits n)]
  show some (withSign true (valueIn 10 (Nat.toDigits 10 n))) = _
  rw [valueIn_toDigits]
  rfl

theorem toList_ofNat (n : Nat) : (toString (Int.ofNat n)).toList = Nat.toDigits 10 n := by
  show n.repr.toList = _
  rw [Nat.repr_eq_ofList_toDigits, String.toList_ofList]

theorem toList_negSucc (n : Nat) :
    (toString (Int.negSucc n)).toList = '-' :: Nat.toDigits 10 (n + 1) := by
  show ("-" ++ (n + 1).repr).toList = _
  rw [Nat.repr_eq_ofList_toDigits, String.toList_append, String.toList_ofList,
    String.toList_ofList]
  rfl

/-- Digits, with a sign or without. -/
inductive Signed : Chars → Prop
  | digits {cs : Chars} (h : ∀ c ∈ cs, c.isDigit = true) : Signed cs
  | minus {cs : Chars} (h : ∀ c ∈ cs, c.isDigit = true) : Signed ('-' :: cs)

theorem signed_integer (i : Int) : Signed (toString i).toList := by
  cases i with
  | ofNat n =>
    rw [toList_ofNat]
    exact .digits fun _ => isDigit_of_mem_toDigits
  | negSucc n =>
    rw [toList_negSucc]
    exact .minus fun _ => isDigit_of_mem_toDigits

theorem integer?_toString (i : Int) : integer? (toString i).toList = some i := by
  cases i with
  | ofNat n =>
    rw [toList_ofNat]
    exact integer?_toDigits n
  | negSucc n =>
    rw [toList_negSucc]
    exact integer?_minus (n + 1)

section

variable {cs : Chars} (h : Signed cs)

include h

theorem isDate_of_signed : isDate cs = false := by
  cases h with
  | digits h => rw [isDate, date?_of_digits h, decide_eq_false nofun]
  | minus h => rfl

theorem isMoment_of_signed : isMoment cs = false := by
  cases h with
  | digits h =>
    rw [isMoment, date?_of_digits h, clock?_of_digits h]
    rfl
  | minus h => rfl

theorem isWordChar_of_signed : ∀ c ∈ cs, isWordChar c = true := by
  have hdigit {c : Char} (hc : c.isDigit = true) : isWordChar c = true := by
    simp only [isWordChar, Char.isAlphanum, hc, Bool.or_true, Bool.true_or]
  cases h with
  | digits h => exact fun c hc => hdigit (h c hc)
  | minus h =>
    rw [List.forall_mem_cons]
    exact ⟨rfl, fun c hc => hdigit (h c hc)⟩

/-- What begins like a number begins no other word. -/
theorem ne_cons_of_signed {c : Char} (hdigit : c.isDigit = false) (hminus : c ≠ '-') (r : Chars) :
    cs ≠ c :: r := by
  rintro rfl
  cases h with
  | digits h => exact not_mem_of_digits h hdigit (.head _)
  | minus => exact hminus rfl

end

theorem integer_eq_cons (i : Int) :
    ∃ c r, (toString i).toList = c :: r ∧ ∀ d, d.isDigit = false → d ≠ '-' → c ≠ d := by
  have hsigned := signed_integer i
  cases hcs : (toString i).toList with
  | nil =>
    have hread := integer?_toString i
    rw [hcs] at hread
    cases hread
  | cons c r =>
    rw [hcs] at hsigned
    refine ⟨c, r, rfl, ?_⟩
    rintro d hdigit hminus rfl
    exact ne_cons_of_signed hsigned hdigit hminus r rfl

theorem ofWord?_integer (i : Int) : ofWord? (toString i).toList = some (.integer i) := by
  have h := signed_integer i
  rw [ofWord?, if_neg (ne_cons_of_signed h rfl (by decide) _),
    if_neg (ne_cons_of_signed h rfl (by decide) _), isMoment_of_signed h, integer?_toString]
  rfl

section

variable {rest : Chars} (hrest : ∀ c ∈ rest.head?, isWordChar c = false)

include hrest

theorem word?_integer (i : Int) : word? ((toString i).toList ++ rest) = some (.integer i, rest) :=
  word?_append (isWordChar_of_signed (signed_integer i)) hrest
    (isDate_of_signed (signed_integer i)) (ofWord?_integer i)

theorem word?_boolean (b : Bool) :
    word? ((toString b).toList ++ rest) = some (.boolean b, rest) := by
  cases b with
  | true => exact word?_append (List.all_eq_true.mp rfl) hrest rfl rfl
  | false => exact word?_append (List.all_eq_true.mp rfl) hrest rfl rfl

end

end Untagged.Toml
