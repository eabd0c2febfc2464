import Untagged.Proofs.Json.Consumed
import Untagged.Proofs.Json.ReadBack

/-!
# What a reader has read

A reader of the grammar that succeeds has read the bytes up to some place, and it
makes the same of these bytes whatever else stands behind them (`Reads`).  Only a
number does not say where it ends: what stands behind it must not continue it
(`Stops`).

So a value can be told from the bytes before the place where its reader stopped, and
a text may go wrong behind that place without changing it (`value_reads`).
-/

namespace Untagged.Json.Reader

variable {α : Type}

/-- The reader makes `x` of the bytes `p`, whatever stands behind them and meets
`C`. -/
def Reads (C : Bytes → Prop) (f : Bytes → Except Fault (Read α)) (p : Bytes) (x : α) : Prop :=
  ∀ rest, C rest → f (p ++ rest) = .ok (x, rest)

/-- The reader makes `x` of the bytes of `s` before `rest`. -/
def ReadsUpTo (C : Bytes → Prop) (f : Bytes → Except Fault (Read α)) (s rest : Bytes) (x : α) :
    Prop :=
  ∃ p, s = p ++ rest ∧ Reads C f p x

/-- Nothing is asked of the bytes behind. -/
def Anything : Bytes → Prop := fun _ => True

/-- White space is skipped up to the next byte, whatever stands behind that one. -/
theorem exists_blanks_of_skipBlanks {s r : Bytes} {b : UInt8} (h : skipBlanks s = b :: r) :
    ∃ blanks, (∀ c ∈ blanks, isBlank c = true) ∧ s = blanks ++ b :: r ∧
      ∀ r', skipBlanks (blanks ++ b :: r') = b :: r' := by
  induction s with
  | nil => cases h
  | cons c s ih =>
    rw [skipBlanks] at h
    by_cases hc : isBlank c = true
    · rw [if_pos hc] at h
      obtain ⟨blanks, hblanks, rfl, hskip⟩ := ih h
      refine ⟨c :: blanks, ?_, rfl, fun r' => ?_⟩
      · rw [List.forall_mem_cons]
        exact ⟨hc, hblanks⟩
      · rw [List.cons_append, skipBlanks, if_pos hc, hskip]
    · rw [if_neg hc] at h
      cases h
      refine ⟨[], by simp, rfl, fun r' => ?_⟩
      rw [List.nil_append, skipBlanks, if_neg hc]

theorem keyword_reads {cs s rest : Bytes} (h : keyword cs s = .ok rest) :
    s = cs ++ rest ∧ ∀ rest', keyword cs (cs ++ rest') = .ok rest' := by
  induction cs generalizing s with
  | nil =>
    cases h
    exact ⟨rfl, fun _ => rfl⟩
  | cons c cs ih =>
    cases s with
    | nil => cases h
    | cons b s =>
      rw [keyword] at h
      by_cases hb : b = c
      · rw [if_pos hb] at h
        obtain ⟨rfl, hread⟩ := ih h
        refine ⟨by rw [hb, List.cons_append], fun rest' => ?_⟩
        rw [List.cons_append, keyword, if_pos rfl, hread]
      · rw [if_neg hb] at h
        cases h

/-! ## Numbers -/

theorem spanDigits_reads (s : Bytes) :
    s = (spanDigits s).1 ++ (spanDigits s).2 ∧ (∀ b ∈ (spanDigits s).1, isDigit b = true) ∧
      ∀ b ∈ (spanDigits s).2.head?, isDigit b = false := by
  induction s with
  | nil => simp [spanDigits]
  | cons b s ih =>
    obtain ⟨hs, hdigits, hbehind⟩ := ih
    rw [spanDigits]
    by_cases hb : isDigit b = true
    · rw [if_pos hb, List.forall_mem_cons, List.cons_append, ← hs]
      exact ⟨rfl, ⟨hb, hdigits⟩, hbehind⟩
    · rw [if_neg hb]
      refine ⟨rfl, by simp, ?_⟩
      rintro _ ⟨⟩
      exact Bool.eq_false_iff.mpr hb

/-- Where no digit comes first, none does when something else stands behind. -/
theorem not_isDigit_append {p rest rest' : Bytes}
    (h : ∀ d ∈ (p ++ rest).head?, isDigit d = false) (hrest' : Stops rest') :
    ∀ d ∈ (p ++ rest').head?, isDigit d = false := by
  cases p with
  | nil => exact hrest'.not_isDigit
  | cons d p => exact h

theorem floatNumber_reads {negative : Bool} {x : Option Double} {s rest : Bytes} {n : Number}
    (h : floatNumber negative x s = .ok (n, rest)) :
    rest = s ∧ ∀ s', floatNumber negative x s' = .ok (n, s') := by
  rw [floatNumber] at h
  split at h
  · next f hf =>
    cases h
    exact ⟨rfl, fun s' => by rw [floatNumber, hf]⟩
  · cases h

theorem wholeNumber_reads {negative : Bool} {significand : Nat} {s rest : Bytes} {n : Number}
    (h : wholeNumber negative significand s = .ok (n, rest)) :
    rest = s ∧ ∀ s', wholeNumber negative significand s' = .ok (n, s') := by
  rw [wholeNumber] at h
  simp only [wholeNumber]
  split at h
  · next i hi =>
    split at h
    · next hzero =>
      obtain ⟨rfl, hread⟩ := floatNumber_reads h
      refine ⟨rfl, fun s' => ?_⟩
      rw [if_pos hzero, hread]
    · next hzero =>
      cases h
      refine ⟨rfl, fun s' => ?_⟩
      rw [if_neg hzero]
  · exact floatNumber_reads h

theorem exponentDigits_of_stops {rest : Bytes} (h : Stops rest) (negative : Bool)
    (significand : Nat) (start : Int) (up : Bool) (exponent : Nat) :
    exponentDigits negative significand start up exponent rest =
      floatNumber negative (scaled? significand (shifted start up exponent)) rest := by
  cases rest with
  | nil => rfl
  | cons b r =>
    rw [exponentDigits, h.1]
    rfl

theorem exponentDigits_reads {negative : Bool} {significand : Nat} {start : Int} {up : Bool}
    {exponent : Nat} {s rest : Bytes} {n : Number}
    (h : exponentDigits negative significand start up exponent s = .ok (n, rest)) :
    ReadsUpTo Stops (exponentDigits negative significand start up exponent) s rest n := by
  -- Where the digits end, what is made of them stands already.
  have ends {exponent : Nat} {s : Bytes}
      (h : floatNumber negative (scaled? significand (shifted start up exponent)) s =
        .ok (n, rest)) :
      ReadsUpTo Stops (exponentDigits negative significand start up exponent) s rest n := by
    obtain ⟨rfl, hread⟩ := floatNumber_reads h
    refine ⟨[], rfl, fun rest' hrest' => ?_⟩
    rw [List.nil_append, exponentDigits_of_stops hrest', hread]
  induction s generalizing exponent with
  | nil => exact ends h
  | cons b s ih =>
    rw [exponentDigits] at h
    by_cases hb : isDigit b = true
    · simp only [if_pos hb] at h
      by_cases hnext : 10 * exponent + digitValue b ≤ maxExponent
      · rw [if_pos hnext] at h
        obtain ⟨p, rfl, hread⟩ := ih h
        refine ⟨b :: p, rfl, fun rest' hrest' => ?_⟩
        rw [List.cons_append, exponentDigits]
        simp only [if_pos hb, if_pos hnext]
        exact hread rest' hrest'
      · rw [if_neg hnext] at h
        by_cases hlarge : significand ≠ 0 ∧ up = true
        · rw [if_pos hlarge] at h
          cases h
        · -- The digits that are left are passed over.
          rw [if_neg hlarge] at h
          obtain ⟨rfl, hread⟩ := floatNumber_reads h
          obtain ⟨hs, hdigits, -⟩ := spanDigits_reads s
          refine ⟨b :: (spanDigits s).1, by rw [List.cons_append, ← hs], fun rest' hrest' => ?_⟩
          rw [List.cons_append, exponentDigits]
          simp only [if_pos hb, if_neg hnext, if_neg hlarge,
            spanDigits_append hdigits hrest'.not_isDigit]
          exact hread rest'
    · rw [if_neg hb] at h
      exact ends h

theorem exponentPart_reads {negative : Bool} {significand : Nat} {start : Int}
    {s rest : Bytes} {n : Number} (h : exponentPart negative significand start s = .ok (n, rest)) :
    ReadsUpTo Stops (exponentPart negative significand start) s rest n := by
  -- The sign is read, and then at least one digit.
  obtain ⟨sign, d, r, rfl, hd, hsign⟩ : ∃ sign d r, s = sign ++ d :: r ∧ isDigit d = true ∧
      ∀ r', exponentSign (sign ++ d :: r') = ((exponentSign s).1, d :: r') := by
    rw [exponentPart] at h
    cases s with
    | nil => cases h
    | cons b t =>
      rw [exponentSign] at h ⊢
      by_cases hplus : b = 43
      · simp only [if_pos hplus] at h ⊢
        cases t with
        | nil => cases h
        | cons d r =>
          by_cases hd : isDigit d = true
          · exact ⟨[b], d, r, rfl, hd, fun r' => by
              rw [List.singleton_append, exponentSign, if_pos hplus]⟩
          · simp only [if_neg hd] at h
            cases h
      · by_cases hminus : b = 45
        · simp only [if_neg hplus, if_pos hminus] at h ⊢
          cases t with
          | nil => cases h
          | cons d r =>
            by_cases hd : isDigit d = true
            · exact ⟨[b], d, r, rfl, hd, fun r' => by
                rw [List.singleton_append, exponentSign, if_neg hplus, if_pos hminus]⟩
            · simp only [if_neg hd] at h
              cases h
        · simp only [if_neg hplus, if_neg hminus] at h ⊢
          by_cases hd : isDigit b = true
          · exact ⟨[], b, t, rfl, hd, fun r' => by
              rw [List.nil_append, exponentSign, if_neg hplus, if_neg hminus]⟩
          · simp only [if_neg hd] at h
            cases h
  have hpart (r' : Bytes) : exponentPart negative significand start (sign ++ d :: r') =
      exponentDigits negative significand start (exponentSign (sign ++ d :: r)).1 (digitValue d)
        r' := by
    rw [exponentPart, hsign r']
    simp only [if_pos hd]
  rw [hpart] at h
  obtain ⟨p, rfl, hread⟩ := exponentDigits_reads h
  refine ⟨sign ++ d :: p, by simp, fun rest' hrest' => ?_⟩
  rw [List.append_assoc, List.cons_append, hpart, hread rest' hrest']

theorem not_isDigit_of_isExponentMark {b : UInt8} (h : isExponentMark b = true) :
    isDigit b = false := by
  simp only [isExponentMark, Bool.or_eq_true, decide_eq_true_eq] at h
  rcases h with rfl | rfl <;> decide

theorem fractionPart_reads {negative : Bool} {significand dropped : Nat} {s rest : Bytes}
    {n : Number} (h : fractionPart negative significand dropped s = .ok (n, rest)) :
    ReadsUpTo Stops (fractionPart negative significand dropped) s rest n := by
  obtain ⟨hs, hdigits, -⟩ := spanDigits_reads s
  rw [fractionPart] at h
  generalize hspan : spanDigits s = span at h hs hdigits
  obtain ⟨digits, behind⟩ := span
  simp only at h hs hdigits
  by_cases hempty : digits.isEmpty = true
  · rw [if_pos hempty] at h
    cases h
  rw [if_neg hempty] at h
  subst hs
  -- Behind the digits there is an exponent, or the number ends.
  have ends {s : Bytes} (h : floatNumber negative
      (scaled? (absorb significand digits).1
        ((dropped : Int) - (digits.length - (absorb significand digits).2.length : Nat))) s =
        .ok (n, rest)) :
      ReadsUpTo Stops (fractionPart negative significand dropped) (digits ++ s) rest n := by
    obtain ⟨rfl, hread⟩ := floatNumber_reads h
    refine ⟨digits, rfl, fun rest' hrest' => ?_⟩
    rw [fractionPart, spanDigits_append hdigits hrest'.not_isDigit]
    simp only [if_neg hempty]
    cases rest' with
    | nil => exact hread []
    | cons b r =>
      simp only [hrest'.2.2]
      exact hread (b :: r)
  cases behind with
  | nil => exact ends h
  | cons b r =>
    by_cases hmark : isExponentMark b = true
    · simp only [if_pos hmark] at h
      obtain ⟨p, rfl, hread⟩ := exponentPart_reads h
      refine ⟨digits ++ b :: p, by simp, fun rest' hrest' => ?_⟩
      have hb : ∀ c ∈ (b :: (p ++ rest')).head?, isDigit c = false := by
        rintro _ ⟨⟩
        exact not_isDigit_of_isExponentMark hmark
      rw [fractionPart, List.append_assoc, List.cons_append, spanDigits_append hdigits hb]
      simp only [if_neg hempty, if_pos hmark]
      exact hread rest' hrest'
    · simp only [if_neg hmark] at h
      exact ends h

theorem afterWhole_reads {negative : Bool} {digits s rest : Bytes} {n : Number}
    (h : afterWhole negative digits s = .ok (n, rest)) :
    ReadsUpTo Stops (afterWhole negative digits) s rest n := by
  -- Without fraction and exponent the number ends.
  have ends {s : Bytes} (h : (if (absorb 0 digits).2.isEmpty then
      wholeNumber negative (absorb 0 digits).1 s
      else floatNumber negative (scaled? (absorb 0 digits).1 (absorb 0 digits).2.length) s) =
        .ok (n, rest)) :
      ReadsUpTo Stops (afterWhole negative digits) s rest n := by
    have hread : rest = s ∧ ∀ s', (if (absorb 0 digits).2.isEmpty then
        wholeNumber negative (absorb 0 digits).1 s'
        else floatNumber negative (scaled? (absorb 0 digits).1 (absorb 0 digits).2.length) s') =
          .ok (n, s') := by
      by_cases hempty : (absorb 0 digits).2.isEmpty = true
      · simp only [if_pos hempty] at h ⊢
        exact wholeNumber_reads h
      · simp only [if_neg hempty] at h ⊢
        exact floatNumber_reads h
    obtain ⟨rfl, hread⟩ := hread
    refine ⟨[], rfl, fun rest' hrest' => ?_⟩
    rw [List.nil_append, afterWhole]
    cases rest' with
    | nil => exact hread []
    | cons b r =>
      simp only [if_neg hrest'.2.1, hrest'.2.2]
      exact hread (b :: r)
  cases s with
  | nil => exact ends h
  | cons b r =>
    rw [afterWhole] at h
    by_cases hpoint : b = 46
    · simp only [if_pos hpoint] at h
      obtain ⟨p, rfl, hread⟩ := fractionPart_reads h
      refine ⟨b :: p, rfl, fun rest' hrest' => ?_⟩
      rw [List.cons_append, afterWhole]
      simp only [if_pos hpoint]
      exact hread rest' hrest'
    · by_cases hmark : isExponentMark b = true
      · simp only [if_neg hpoint, if_pos hmark] at h
        obtain ⟨p, rfl, hread⟩ := exponentPart_reads h
        refine ⟨b :: p, rfl, fun rest' hrest' => ?_⟩
        rw [List.cons_append, afterWhole]
        simp only [if_neg hpoint, if_pos hmark]
        exact hread rest' hrest'
      · simp only [if_neg hpoint, if_neg hmark] at h
        exact ends h

theorem number_reads {negative : Bool} {s rest : Bytes} {n : Number}
    (h : number negative s = .ok (n, rest)) : ReadsUpTo Stops (number negative) s rest n := by
  cases s with
  | nil => cases h
  | cons b r =>
    rw [number.eq_def] at h
    by_cases hzero : b = 48
    · -- A leading zero has no digit behind it.
      have hhead : (∀ d ∈ r.head?, isDigit d = false) ∧
          afterWhole negative [b] r = .ok (n, rest) := by
        cases r with
        | nil => exact ⟨by simp, by simpa only [if_pos hzero] using h⟩
        | cons d r =>
          by_cases hd : isDigit d = true
          · simp only [if_pos hzero, if_pos hd] at h
            cases h
          · simp only [if_pos hzero, if_neg hd] at h
            refine ⟨?_, h⟩
            rintro _ ⟨⟩
            exact Bool.eq_false_iff.mpr hd
      obtain ⟨p, rfl, hread⟩ := afterWhole_reads hhead.2
      refine ⟨b :: p, rfl, fun rest' hrest' => ?_⟩
      have hdigit := not_isDigit_append hhead.1 hrest'
      rw [List.cons_append, number.eq_def]
      simp only [if_pos hzero]
      rw [← hread rest' hrest']
      cases hp : p ++ rest' with
      | nil => rfl
      | cons d t =>
        rw [hp] at hdigit
        simp only [hdigit d rfl, Bool.false_eq_true, if_false]
    · by_cases hb : isDigit b = true
      · simp only [if_neg hzero, if_pos hb] at h
        obtain ⟨hr, hdigits, hbehind⟩ := spanDigits_reads r
        obtain ⟨p, hp, hread⟩ := afterWhole_reads h
        rw [hp] at hbehind
        refine ⟨b :: ((spanDigits r).1 ++ p), ?_, fun rest' hrest' => ?_⟩
        · rw [List.cons_append, List.append_assoc, ← hp, ← hr]
        · rw [List.cons_append, List.append_assoc, number.eq_def]
          simp only [if_neg hzero, if_pos hb,
            spanDigits_append hdigits (not_isDigit_append hbehind hrest')]
          exact hread rest' hrest'
      · simp only [if_neg hzero, if_neg hb] at h
        cases h

/-! ## Strings -/

theorem hexEscape_reads {s rest : Bytes} {n : Nat} (h : hexEscape s = .ok (n, rest)) :
    ReadsUpTo Anything hexEscape s rest n := by
  match s, h with
  | a :: b :: c :: d :: t, h =>
    rw [hexEscape] at h
    cases hvalue : hexValue4? a b c d with
    | none =>
      rw [hvalue] at h
      cases h
    | some m =>
      rw [hvalue] at h
      cases h
      refine ⟨[a, b, c, d], rfl, fun rest' _ => ?_⟩
      show hexEscape (a :: b :: c :: d :: rest') = _
      rw [hexEscape, hvalue]

theorem pairByte_reads {expected : UInt8} {s rest : Bytes} (h : pairByte expected s = .ok rest) :
    s = expected :: rest ∧ ∀ rest', pairByte expected (expected :: rest') = .ok rest' := by
  cases s with
  | nil => cases h
  | cons b s =>
    rw [pairByte] at h
    by_cases hb : b = expected
    · rw [if_pos hb] at h
      cases h
      exact ⟨by rw [hb], fun rest' => by rw [pairByte, if_pos rfl]⟩
    · rw [if_neg hb] at h
      cases h

theorem unicodeEscape_reads {s rest bytes : Bytes} (h : unicodeEscape s = .ok (bytes, rest)) :
    ReadsUpTo Anything unicodeEscape s rest bytes := by
  rw [unicodeEscape, bind_eq_ok] at h
  obtain ⟨⟨n, t⟩, ht, h⟩ := h
  obtain ⟨p, rfl, hp⟩ := hexEscape_reads ht
  simp only at h
  by_cases htrail : isTrailingSurrogate n = true
  · rw [if_pos htrail] at h
    cases h
  rw [if_neg htrail] at h
  by_cases hlead : isLeadingSurrogate n = true
  · simp only [if_pos hlead, bind_eq_ok] at h
    obtain ⟨t₁, h₁, t₂, h₂, ⟨m, t₃⟩, h₃, h⟩ := h
    obtain ⟨rfl, hslash⟩ := pairByte_reads h₁
    obtain ⟨rfl, hletter⟩ := pairByte_reads h₂
    obtain ⟨q, rfl, hq⟩ := hexEscape_reads h₃
    simp only at h
    by_cases hm : isTrailingSurrogate m = true
    · rw [if_pos hm] at h
      obtain ⟨hbytes, rfl⟩ := Prod.mk.inj (Except.ok.inj h)
      refine ⟨p ++ 92 :: 117 :: q, by simp, fun rest' _ => ?_⟩
      rw [List.append_assoc, unicodeEscape]
      refine bind_eq_ok.mpr ⟨_, hp _ trivial, ?_⟩
      simp only [if_neg htrail, if_pos hlead, bind_eq_ok]
      exact ⟨_, hslash _, _, hletter _, _, hq rest' trivial, by rw [if_pos hm, hbytes]⟩
    · rw [if_neg hm] at h
      cases h
  · rw [if_neg hlead] at h
    cases h
    refine ⟨p, rfl, fun rest' _ => ?_⟩
    rw [unicodeEscape]
    refine bind_eq_ok.mpr ⟨_, hp _ trivial, ?_⟩
    simp only [if_neg htrail, if_neg hlead]

theorem escape_reads {s rest bytes : Bytes} (h : escape s = .ok (bytes, rest)) :
    ReadsUpTo Anything escape s rest bytes := by
  cases s with
  | nil => cases h
  | cons letter s =>
    rw [escape] at h
    cases hshort : shortEscape? letter with
    | some b =>
      rw [hshort] at h
      cases h
      refine ⟨[letter], rfl, fun rest' _ => ?_⟩
      rw [List.singleton_append, escape, hshort]
    | none =>
      rw [hshort] at h
      by_cases hu : letter = 117
      · simp only [if_pos hu] at h
        obtain ⟨p, rfl, hp⟩ := unicodeEscape_reads h
        refine ⟨letter :: p, rfl, fun rest' _ => ?_⟩
        rw [List.cons_append, escape, hshort]
        simp only [if_pos hu]
        exact hp rest' trivial
      · simp only [if_neg hu] at h
        cases h

/-- As many steps as there are bytes of the string are enough. -/
theorem stringBytesFrom_reads {fuel : Nat} {s bytes rest : Bytes}
    (h : stringBytesFrom fuel s = .ok (bytes, rest)) :
    ∃ p, s = p ++ rest ∧
      ∀ fuel', p.length ≤ fuel' → Reads Anything (stringBytesFrom fuel') p bytes := by
  induction fuel generalizing s bytes with
  | zero => cases s <;> cases h
  | succ fuel ih =>
    cases s with
    | nil => cases h
    | cons b s =>
      rw [stringBytesFrom] at h
      by_cases hquote : b = 34
      · rw [if_pos hquote] at h
        cases h
        refine ⟨[b], rfl, fun fuel' hfuel' rest' _ => ?_⟩
        obtain ⟨fuel', rfl⟩ := Nat.exists_eq_add_one_of_ne_zero (Nat.ne_zero_of_lt hfuel')
        rw [List.singleton_append, stringBytesFrom, if_pos hquote]
      rw [if_neg hquote] at h
      by_cases hslash : b = 92
      · simp only [if_pos hslash, bind_eq_ok] at h
        obtain ⟨⟨escaped, t⟩, ht, ⟨more, t'⟩, hmore, h⟩ := h
        cases h
        obtain ⟨p, rfl, hp⟩ := escape_reads ht
        obtain ⟨q, rfl, hq⟩ := ih hmore
        refine ⟨b :: (p ++ q), by simp, fun fuel' hfuel' rest' _ => ?_⟩
        rw [List.length_cons, List.length_append] at hfuel'
        obtain ⟨fuel', rfl⟩ := Nat.exists_eq_add_one_of_ne_zero (Nat.ne_zero_of_lt hfuel')
        rw [List.cons_append, List.append_assoc, stringBytesFrom, if_neg hquote, if_pos hslash]
        simp only [bind_eq_ok]
        exact ⟨_, hp _ trivial, _, hq fuel' (by omega) rest' trivial, rfl⟩
      rw [if_neg hslash] at h
      by_cases hcontrol : b < 32
      · rw [if_pos hcontrol] at h
        cases h
      rw [if_neg hcontrol, bind_eq_ok] at h
      obtain ⟨⟨more, t⟩, hmore, h⟩ := h
      cases h
      obtain ⟨p, rfl, hp⟩ := ih hmore
      refine ⟨b :: p, rfl, fun fuel' hfuel' rest' _ => ?_⟩
      rw [List.length_cons] at hfuel'
      obtain ⟨fuel', rfl⟩ := Nat.exists_eq_add_one_of_ne_zero (Nat.ne_zero_of_lt hfuel')
      rw [List.cons_append, stringBytesFrom, if_neg hquote, if_neg hslash, if_neg hcontrol]
      exact bind_eq_ok.mpr ⟨_, hp fuel' (by omega) rest' trivial, rfl⟩

theorem string_reads {s rest : Bytes} {text : String} (h : string s = .ok (text, rest)) :
    ReadsUpTo Anything string s rest text := by
  rw [string, bind_eq_ok] at h
  obtain ⟨⟨bytes, t⟩, ht, h⟩ := h
  obtain ⟨p, rfl, hp⟩ := stringBytesFrom_reads ht
  simp only at h
  cases htext : Utf8.decode? bytes with
  | none =>
    rw [htext] at h
    cases h
  | some found =>
    rw [htext] at h
    cases h
    refine ⟨p, rfl, fun rest' _ => ?_⟩
    have hfuel : p.length ≤ (p ++ rest').length := by rw [List.length_append]; omega
    rw [string]
    refine bind_eq_ok.mpr ⟨_, hp _ hfuel rest' trivial, ?_⟩
    simp only [htext]

/-! ## Arrays and objects -/

section

variable {item : Bytes → Except Fault (Read α)}

theorem exists_cons_of_append {p t rest : Bytes} {c : UInt8} (hp : p ≠ [])
    (h : c :: t = p ++ rest) : ∃ q, p = c :: q ∧ t = q ++ rest := by
  cases p with
  | nil => exact absurd rfl hp
  | cons d q =>
    obtain ⟨rfl, ht⟩ := List.cons.inj h
    exact ⟨q, rfl, ht⟩

/-- The mark that ends an item, with white space before it, continues no number. -/
theorem stops_blanks_cons {blanks : Bytes} (hblanks : ∀ c ∈ blanks, isBlank c = true) {b : UInt8}
    (hb : b = 44 ∨ b = 93 ∨ b = 125) (r : Bytes) : Stops (blanks ++ b :: r) := by
  have hmark : Delimited (b :: r) := .inr hb
  exact (Delimited.append hblanks hmark).stops

/-- As many steps as there are bytes of the items are enough. -/
theorem itemsAfter_reads
    (hitem : ∀ s x rest, item s = .ok (x, rest) → ReadsUpTo Stops item s rest x) {fuel : Nat}
    {s rest : Bytes} {xs : List α} (h : itemsAfter item fuel s = .ok (xs, rest)) :
    ∃ p, p ≠ [] ∧ s = p ++ rest ∧ (∀ rest', Stops (p ++ rest')) ∧
      ∀ fuel', p.length ≤ fuel' → Reads Anything (itemsAfter item fuel') p xs := by
  induction fuel generalizing s xs with
  | zero => cases h
  | succ fuel ih =>
    rw [itemsAfter] at h
    cases hs : skipBlanks s with
    | nil =>
      rw [hs] at h
      cases h
    | cons b r =>
      rw [hs] at h
      obtain ⟨blanks, hblanks, rfl, hskip⟩ := exists_blanks_of_skipBlanks hs
      by_cases hend : b = 93
      · simp only [if_pos hend] at h
        cases h
        refine ⟨blanks ++ [b], by simp, by simp, fun rest' => ?_, fun fuel' hfuel' rest' _ => ?_⟩
        · rw [List.append_assoc]
          exact stops_blanks_cons hblanks (.inr (.inl hend)) rest'
        · rw [List.length_append, List.length_singleton] at hfuel'
          obtain ⟨k, rfl⟩ : ∃ k, fuel' = k + 1 := ⟨fuel' - 1, by omega⟩
          rw [List.append_assoc, List.singleton_append, itemsAfter, hskip]
          simp only [if_pos hend]
      simp only [if_neg hend] at h
      by_cases hcomma : b = 44
      · simp only [if_pos hcomma] at h
        cases hr : skipBlanks r with
        | nil =>
          rw [hr] at h
          cases h
        | cons c t =>
          rw [hr] at h
          obtain ⟨blanks', -, rfl, hskip'⟩ := exists_blanks_of_skipBlanks hr
          by_cases hc : c = 93
          · simp only [if_pos hc] at h
            cases h
          simp only [if_neg hc, bind_eq_ok] at h
          obtain ⟨⟨x, t₁⟩, h₁, ⟨ys, t₂⟩, h₂, h⟩ := h
          cases h
          obtain ⟨p, hp, hread⟩ := hitem _ _ _ h₁
          obtain ⟨q, hq, rfl, hstops, hreads⟩ := ih h₂
          rw [← List.append_assoc] at hp
          obtain ⟨u, hu, rfl⟩ := exists_cons_of_append (by simp [hq]) hp
          refine ⟨blanks ++ b :: (blanks' ++ c :: u), by simp, by simp, fun rest' => ?_,
            fun fuel' hfuel' rest' _ => ?_⟩
          · rw [List.append_assoc]
            exact stops_blanks_cons hblanks (.inl hcomma) _
          · have hlength := congrArg List.length hu
            simp only [List.length_append, List.length_cons] at hfuel' hlength
            obtain ⟨k, rfl⟩ : ∃ k, fuel' = k + 1 := ⟨fuel' - 1, by omega⟩
            simp only [List.append_assoc, List.cons_append]
            rw [itemsAfter, hskip]
            simp only [if_neg hend, if_pos hcomma, hskip', if_neg hc]
            rw [← List.cons_append, ← hu, List.append_assoc]
            simp only [bind_eq_ok]
            exact ⟨_, hread _ (hstops rest'), _, hreads k (by omega) rest' trivial, rfl⟩
      · simp only [if_neg hcomma] at h
        cases h

theorem sequence_reads
    (hitem : ∀ s x rest, item s = .ok (x, rest) → ReadsUpTo Stops item s rest x)
    {s rest : Bytes} {xs : List α} (h : sequence item s = .ok (xs, rest)) :
    ReadsUpTo Anything (sequence item) s rest xs := by
  rw [sequence] at h
  cases hs : skipBlanks s with
  | nil =>
    rw [hs] at h
    cases h
  | cons b r =>
    rw [hs] at h
    obtain ⟨blanks, hblanks, rfl, hskip⟩ := exists_blanks_of_skipBlanks hs
    by_cases hend : b = 93
    · simp only [if_pos hend] at h
      cases h
      refine ⟨blanks ++ [b], by simp, fun rest' _ => ?_⟩
      rw [List.append_assoc, List.singleton_append, sequence, hskip]
      simp only [if_pos hend]
    · simp only [if_neg hend, bind_eq_ok] at h
      obtain ⟨⟨x, t₁⟩, h₁, ⟨ys, t₂⟩, h₂, h⟩ := h
      cases h
      obtain ⟨p, hp, hread⟩ := hitem _ _ _ h₁
      obtain ⟨q, hq, rfl, hstops, hreads⟩ := itemsAfter_reads hitem h₂
      rw [← List.append_assoc] at hp
      obtain ⟨u, hu, rfl⟩ := exists_cons_of_append (by simp [hq]) hp
      refine ⟨blanks ++ b :: u, by simp, fun rest' _ => ?_⟩
      rw [List.append_assoc, List.cons_append, sequence, hskip]
      simp only [if_neg hend]
      rw [← List.cons_append, ← hu, List.append_assoc]
      simp only [bind_eq_ok]
      have hfuel : q.length ≤ (q ++ rest').length := by rw [List.length_append]; omega
      exact ⟨_, hread _ (hstops rest'), _, hreads _ hfuel rest' trivial, rfl⟩

theorem colon_reads {s rest : Bytes} (h : colon s = .ok rest) :
    ∃ p, s = p ++ rest ∧ ∀ rest', colon (p ++ rest') = .ok rest' := by
  rw [colon] at h
  cases hs : skipBlanks s with
  | nil =>
    rw [hs] at h
    cases h
  | cons b r =>
    rw [hs] at h
    obtain ⟨blanks, -, rfl, hskip⟩ := exists_blanks_of_skipBlanks hs
    by_cases hb : b = 58
    · simp only [if_pos hb] at h
      cases h
      refine ⟨blanks ++ [b], by simp, fun rest' => ?_⟩
      rw [List.append_assoc, List.singleton_append, colon, hskip]
      simp only [if_pos hb]
    · simp only [if_neg hb] at h
      cases h

theorem member_reads
    (hitem : ∀ s x rest, item s = .ok (x, rest) → ReadsUpTo Stops item s rest x)
    {s rest : Bytes} {m : String × α} (h : member item s = .ok (m, rest)) :
    ReadsUpTo Stops (member item) s rest m := by
  simp only [member, bind_eq_ok] at h
  obtain ⟨⟨name, t₁⟩, h₁, t₂, h₂, ⟨x, t₃⟩, h₃, h⟩ := h
  cases h
  obtain ⟨p₁, rfl, hname⟩ := string_reads h₁
  obtain ⟨p₂, rfl, hcolon⟩ := colon_reads h₂
  obtain ⟨p₃, rfl, hvalue⟩ := hitem _ _ _ h₃
  refine ⟨p₁ ++ (p₂ ++ p₃), by simp, fun rest' hrest' => ?_⟩
  rw [List.append_assoc, List.append_assoc]
  simp only [member, bind_eq_ok]
  exact ⟨_, hname _ trivial, _, hcolon _, _, hvalue rest' hrest', rfl⟩

/-- As many steps as there are bytes of the members are enough. -/
theorem membersAfter_reads
    (hitem : ∀ s x rest, item s = .ok (x, rest) → ReadsUpTo Stops item s rest x) {fuel : Nat}
    {s rest : Bytes} {ms : List (String × α)} (h : membersAfter item fuel s = .ok (ms, rest)) :
    ∃ p, s = p ++ rest ∧ (∀ rest', Stops (p ++ rest')) ∧
      ∀ fuel', p.length ≤ fuel' → Reads Anything (membersAfter item fuel') p ms := by
  induction fuel generalizing s ms with
  | zero => cases h
  | succ fuel ih =>
    rw [membersAfter] at h
    cases hs : skipBlanks s with
    | nil =>
      rw [hs] at h
      cases h
    | cons b r =>
      rw [hs] at h
      obtain ⟨blanks, hblanks, rfl, hskip⟩ := exists_blanks_of_skipBlanks hs
      by_cases hend : b = 125
      · simp only [if_pos hend] at h
        cases h
        refine ⟨blanks ++ [b], by simp, fun rest' => ?_, fun fuel' hfuel' rest' _ => ?_⟩
        · rw [List.append_assoc]
          exact stops_blanks_cons hblanks (.inr (.inr hend)) rest'
        · rw [List.length_append, List.length_singleton] at hfuel'
          obtain ⟨k, rfl⟩ : ∃ k, fuel' = k + 1 := ⟨fuel' - 1, by omega⟩
          rw [List.append_assoc, List.singleton_append, membersAfter, hskip]
          simp only [if_pos hend]
      simp only [if_neg hend] at h
      by_cases hcomma : b = 44
      · simp only [if_pos hcomma] at h
        cases hr : skipBlanks r with
        | nil =>
          rw [hr] at h
          cases h
        | cons c t =>
          rw [hr] at h
          obtain ⟨blanks', -, rfl, hskip'⟩ := exists_blanks_of_skipBlanks hr
          by_cases hc : c = 34
          · simp only [if_pos hc, bind_eq_ok] at h
            obtain ⟨⟨m, t₁⟩, h₁, ⟨ns, t₂⟩, h₂, h⟩ := h
            cases h
            obtain ⟨p, rfl, hread⟩ := member_reads hitem h₁
            obtain ⟨q, rfl, hstops, hreads⟩ := ih h₂
            refine ⟨blanks ++ b :: (blanks' ++ c :: (p ++ q)), by simp, fun rest' => ?_,
              fun fuel' hfuel' rest' _ => ?_⟩
            · rw [List.append_assoc]
              exact stops_blanks_cons hblanks (.inl hcomma) _
            · simp only [List.length_append, List.length_cons] at hfuel'
              obtain ⟨k, rfl⟩ : ∃ k, fuel' = k + 1 := ⟨fuel' - 1, by omega⟩
              simp only [List.append_assoc, List.cons_append]
              rw [membersAfter, hskip]
              simp only [if_neg hend, if_pos hcomma, hskip', if_pos hc, bind_eq_ok]
              exact ⟨_, hread _ (hstops rest'), _, hreads k (by omega) rest' trivial, rfl⟩
          · by_cases hc' : c = 125
            · simp only [if_neg hc, if_pos hc'] at h
              cases h
            · simp only [if_neg hc, if_neg hc'] at h
              cases h
      · simp only [if_neg hcomma] at h
        cases h

theorem membership_reads
    (hitem : ∀ s x rest, item s = .ok (x, rest) → ReadsUpTo Stops item s rest x)
    {s rest : Bytes} {ms : List (String × α)} (h : membership item s = .ok (ms, rest)) :
    ReadsUpTo Anything (membership item) s rest ms := by
  rw [membership] at h
  cases hs : skipBlanks s with
  | nil =>
    rw [hs] at h
    cases h
  | cons b r =>
    rw [hs] at h
    obtain ⟨blanks, hblanks, rfl, hskip⟩ := exists_blanks_of_skipBlanks hs
    by_cases hend : b = 125
    · simp only [if_pos hend] at h
      cases h
      refine ⟨blanks ++ [b], by simp, fun rest' _ => ?_⟩
      rw [List.append_assoc, List.singleton_append, membership, hskip]
      simp only [if_pos hend]
    simp only [if_neg hend] at h
    by_cases hquote : b = 34
    · simp only [if_pos hquote, bind_eq_ok] at h
      obtain ⟨⟨m, t₁⟩, h₁, ⟨ns, t₂⟩, h₂, h⟩ := h
      cases h
      obtain ⟨p, rfl, hread⟩ := member_reads hitem h₁
      obtain ⟨q, rfl, hstops, hreads⟩ := membersAfter_reads hitem h₂
      refine ⟨blanks ++ b :: (p ++ q), by simp, fun rest' _ => ?_⟩
      simp only [List.append_assoc, List.cons_append]
      rw [membership, hskip]
      simp only [if_neg hend, if_pos hquote, bind_eq_ok]
      have hfuel : q.length ≤ (q ++ rest').length := by rw [List.length_append]; omega
      exact ⟨_, hread _ (hstops rest'), _, hreads _ hfuel rest' trivial, rfl⟩
    · simp only [if_neg hquote] at h
      cases h

end

/-! ## Values -/

/-- Only of what stands behind a number is anything asked. -/
def Follows (v : Json) (rest : Bytes) : Prop := v.kind = .number → Stops rest

theorem valueOver_reads {inner : Option (Bytes → Except Fault (Read Json))}
    (hinner : ∀ item, inner = some item →
      ∀ s x rest, item s = .ok (x, rest) → ReadsUpTo Stops item s rest x)
    {s rest : Bytes} {v : Json} (h : valueOver inner s = .ok (v, rest)) :
    ReadsUpTo (Follows v) (valueOver inner) s rest v := by
  cases hs : skipBlanks s with
  | nil =>
    rw [valueOver, hs] at h
    cases h
  | cons b r =>
    obtain ⟨blanks, -, rfl, hskip⟩ := exists_blanks_of_skipBlanks hs
    -- The first byte decides how the bytes behind it are read.
    suffices hr : ∃ p, r = p ++ rest ∧ ∀ rest', Follows v rest' →
        valueOver inner (blanks ++ b :: (p ++ rest')) = .ok (v, rest') by
      obtain ⟨p, rfl, hread⟩ := hr
      refine ⟨blanks ++ b :: p, by simp, fun rest' hrest' => ?_⟩
      rw [List.append_assoc, List.cons_append, hread rest' hrest']
    simp only [valueOver, hskip] at h ⊢
    by_cases hnull : b = 110
    · simp only [if_pos hnull, bind_eq_ok] at h ⊢
      obtain ⟨t, ht, h⟩ := h
      cases h
      obtain ⟨rfl, hread⟩ := keyword_reads ht
      exact ⟨_, rfl, fun rest' _ => ⟨_, hread rest', rfl⟩⟩
    simp only [if_neg hnull] at h ⊢
    by_cases htrue : b = 116
    · simp only [if_pos htrue, bind_eq_ok] at h ⊢
      obtain ⟨t, ht, h⟩ := h
      cases h
      obtain ⟨rfl, hread⟩ := keyword_reads ht
      exact ⟨_, rfl, fun rest' _ => ⟨_, hread rest', rfl⟩⟩
    simp only [if_neg htrue] at h ⊢
    by_cases hfalse : b = 102
    · simp only [if_pos hfalse, bind_eq_ok] at h ⊢
      obtain ⟨t, ht, h⟩ := h
      cases h
      obtain ⟨rfl, hread⟩ := keyword_reads ht
      exact ⟨_, rfl, fun rest' _ => ⟨_, hread rest', rfl⟩⟩
    simp only [if_neg hfalse] at h ⊢
    by_cases hminus : b = 45
    · simp only [if_pos hminus, bind_eq_ok] at h ⊢
      obtain ⟨⟨n, t⟩, ht, h⟩ := h
      cases h
      obtain ⟨p, rfl, hread⟩ := number_reads ht
      exact ⟨p, rfl, fun rest' hrest' => ⟨_, hread rest' (hrest' rfl), rfl⟩⟩
    simp only [if_neg hminus] at h ⊢
    by_cases hdigit : isDigit b = true
    · simp only [if_pos hdigit, bind_eq_ok] at h ⊢
      obtain ⟨⟨n, t⟩, ht, h⟩ := h
      cases h
      obtain ⟨p, hp, hread⟩ := number_reads ht
      have hne : p ≠ [] := by
        rintro rfl
        cases hread [] trivial
      obtain ⟨q, rfl, rfl⟩ := exists_cons_of_append hne hp
      exact ⟨q, rfl, fun rest' hrest' => ⟨_, hread rest' (hrest' rfl), rfl⟩⟩
    simp only [if_neg hdigit] at h ⊢
    by_cases hquote : b = 34
    · simp only [if_pos hquote, bind_eq_ok] at h ⊢
      obtain ⟨⟨text, t⟩, ht, h⟩ := h
      cases h
      obtain ⟨p, rfl, hread⟩ := string_reads ht
      exact ⟨p, rfl, fun rest' _ => ⟨_, hread rest' trivial, rfl⟩⟩
    simp only [if_neg hquote] at h ⊢
    by_cases hbracket : b = 91
    · simp only [if_pos hbracket] at h ⊢
      cases inner with
      | none => cases h
      | some item =>
        simp only [bind_eq_ok, inContainer_eq_ok] at h ⊢
        obtain ⟨⟨items, t⟩, ht, h⟩ := h
        cases h
        obtain ⟨p, rfl, hread⟩ := sequence_reads (hinner item rfl) ht
        exact ⟨p, rfl, fun rest' _ => ⟨_, hread rest' trivial, rfl⟩⟩
    simp only [if_neg hbracket] at h ⊢
    by_cases hbrace : b = 123
    · simp only [if_pos hbrace] at h ⊢
      cases inner with
      | none => cases h
      | some item =>
        simp only [bind_eq_ok, inContainer_eq_ok] at h ⊢
        obtain ⟨⟨pairs, t⟩, ht, h⟩ := h
        cases h
        obtain ⟨p, rfl, hread⟩ := membership_reads (hinner item rfl) ht
        exact ⟨p, rfl, fun rest' _ => ⟨_, hread rest' trivial, rfl⟩⟩
    simp only [if_neg hbrace] at h
    cases h

theorem value_reads {depth : Nat} {s rest : Bytes} {v : Json}
    (h : value depth s = .ok (v, rest)) : ReadsUpTo (Follows v) (value depth) s rest v := by
  induction depth generalizing s rest v with
  | zero => exact valueOver_reads (fun _ hi => by cases hi) h
  | succ depth ih =>
    refine valueOver_reads (fun item hi s' x rest' hx => ?_) h
    cases hi
    obtain ⟨p, hp, hread⟩ := ih hx
    exact ⟨p, hp, fun t ht => hread t fun _ => ht⟩

end Untagged.Json.Reader
