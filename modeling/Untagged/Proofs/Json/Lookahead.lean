import Untagged.Json.Source
import Untagged.Proofs.Json.Consumed

/-!
# What a reader has not looked behind

A reader that has not looked behind the last byte of its input makes the same of longer
input: the same value, or the same fault, with the new bytes left over as well.  This is
what lets a stream hand out its bytes in any pieces.

`Keeps Open f` says it of a reader `f` and all inputs but those for which the result is
`Open`.  A fault is open where the reader asked for a byte behind the last one.  For
strings, arrays and objects there is nothing else (`Asks`), as they say themselves where
they end.  A number is open wherever nothing is left behind it, as more digits may follow
(`RunsOut`).  A value is one or the other (`Unsettled`, `value_keeps`).
-/

namespace Untagged.Json.Reader

variable {α β : Type}

/-- What a reader returned, with more bytes left over. -/
def followedBy (t : Bytes) : Except Fault (Read α) → Except Fault (Read α)
  | .ok (x, rest) => .ok (x, rest ++ t)
  | .error f => .error { f with rest := f.rest ++ t }

theorem followedBy_nil (r : Except Fault (Read α)) : followedBy [] r = r := by
  cases r with
  | ok x => rw [followedBy, List.append_nil]
  | error f => rw [followedBy, List.append_nil]

/-- The reader stopped because it asked for a byte behind the last one. -/
def Asks : Except Fault (Read α) → Prop
  | .ok _ => False
  | .error f => f.asksPastEnd = true

/-- The reader stopped at the end of its input, whether or not it had to. -/
def RunsOut : Except Fault (Read α) → Prop
  | .ok (_, rest) => rest = []
  | .error f => f.asksPastEnd = true

/-- The reader makes the same of its input with more bytes behind it, unless what it makes
of it is open. -/
def Keeps (Open : Except Fault (Read α) → Prop) (f : Bytes → Except Fault (Read α)) : Prop :=
  ∀ s t, ¬ Open (f s) → f (s ++ t) = followedBy t (f s)

/-! ## Steps -/

section

variable {Open : Except Fault (Read α) → Prop} {t : Bytes}

/-- A first step that runs out of bytes leaves none to the second one, which asks for more
then. -/
theorem bind_followedBy {x x' : Except Fault (Read β)} {g g' : Read β → Except Fault (Read α)}
    (hopen : ∀ f : Fault, f.asksPastEnd = true → Open (.error f)) (h : ¬ Open (x >>= g))
    (hx : ¬ RunsOut x → x' = followedBy t x)
    (hg : ∀ y rest, ¬ Open (g (y, rest)) → g' (y, rest ++ t) = followedBy t (g (y, rest)))
    (hend : ∀ y, Open (g (y, []))) : (x' >>= g') = followedBy t (x >>= g) := by
  cases x with
  | error f =>
    rw [hx fun hf => h (hopen f hf)]
    rfl
  | ok r =>
    obtain ⟨y, rest⟩ := r
    have hrest : rest ≠ [] := by
      rintro rfl
      exact h (hend y)
    rw [hx hrest]
    exact hg y rest h

theorem bind_followedBy_of_asks {x x' : Except Fault (Read β)}
    {g g' : Read β → Except Fault (Read α)}
    (hopen : ∀ f : Fault, f.asksPastEnd = true → Open (.error f)) (h : ¬ Open (x >>= g))
    (hx : ¬ Asks x → x' = followedBy t x)
    (hg : ∀ y rest, ¬ Open (g (y, rest)) → g' (y, rest ++ t) = followedBy t (g (y, rest))) :
    (x' >>= g') = followedBy t (x >>= g) := by
  cases x with
  | error f =>
    rw [hx fun hf => h (hopen f hf)]
    rfl
  | ok r =>
    rw [hx id]
    exact hg r.1 r.2 h

/-- A reader that returns only what it left over, as one that also returns nothing. -/
def passing (x : Except Fault Bytes) : Except Fault (Read Unit) := x.map fun rest => ((), rest)

theorem passing_bind (x : Except Fault Bytes) (g : Bytes → Except Fault (Read α)) :
    (passing x >>= fun r => g r.2) = x >>= g := by
  cases x <;> rfl

theorem bind_followedBy_of_passing {x x' : Except Fault Bytes}
    {g g' : Bytes → Except Fault (Read α)}
    (hopen : ∀ f : Fault, f.asksPastEnd = true → Open (.error f)) (h : ¬ Open (x >>= g))
    (hx : ¬ Asks (passing x) → passing x' = followedBy t (passing x))
    (hg : ∀ rest, ¬ Open (g rest) → g' (rest ++ t) = followedBy t (g rest)) :
    (x' >>= g') = followedBy t (x >>= g) := by
  rw [← passing_bind x g] at h ⊢
  rw [← passing_bind x' g']
  exact bind_followedBy_of_asks hopen h hx fun _ rest => hg rest

end

theorem skipBlanks_append_cons {s r : Bytes} {b : UInt8} (h : skipBlanks s = b :: r) (t : Bytes) :
    skipBlanks (s ++ t) = b :: (r ++ t) := by
  induction s with
  | nil => cases h
  | cons c s ih =>
    rw [skipBlanks] at h
    rw [List.cons_append, skipBlanks]
    by_cases hc : isBlank c = true
    · rw [if_pos hc] at h ⊢
      exact ih h
    · rw [if_neg hc] at h ⊢
      cases h
      rfl

/-- What a reader does behind white space is decided by the byte that stands there.  Where
there is none, it asks for one. -/
theorem afterBlanks_followedBy {Open : Except Fault (Read α) → Prop}
    {e e' : Except Fault (Read α)} {k k' : UInt8 → Bytes → Except Fault (Read α)} {s t : Bytes}
    (h : ¬ Open (match skipBlanks s with | [] => e | b :: r => k b r)) (he : Open e)
    (hk : ∀ b r, ¬ Open (k b r) → k' b (r ++ t) = followedBy t (k b r)) :
    (match skipBlanks (s ++ t) with | [] => e' | b :: r => k' b r) =
      followedBy t (match skipBlanks s with | [] => e | b :: r => k b r) := by
  cases hs : skipBlanks s with
  | nil =>
    rw [hs] at h
    exact absurd he h
  | cons b r =>
    rw [skipBlanks_append_cons hs]
    rw [hs] at h
    exact hk b r h

theorem skipBlanks_append_of_eq_nil {s : Bytes} (h : skipBlanks s = []) (t : Bytes) :
    skipBlanks (s ++ t) = skipBlanks t := by
  induction s with
  | nil => rfl
  | cons c s ih =>
    rw [skipBlanks] at h
    rw [List.cons_append, skipBlanks]
    by_cases hc : isBlank c = true
    · rw [if_pos hc] at h ⊢
      exact ih h
    · rw [if_neg hc] at h
      cases h

theorem keyword_keeps (cs : Bytes) : Keeps Asks fun s => passing (keyword cs s) := by
  intro s t h
  induction cs generalizing s with
  | nil => rfl
  | cons c cs ih =>
    cases s with
    | nil => exact absurd rfl h
    | cons b s =>
      simp only [List.cons_append, keyword] at h ⊢
      by_cases hb : b = c
      · simp only [if_pos hb] at h ⊢
        exact ih s h
      · simp only [if_neg hb]
        rfl

/-! ## Numbers -/

theorem spanDigits_append_of_ne_nil {s : Bytes} (h : (spanDigits s).2 ≠ []) (t : Bytes) :
    spanDigits (s ++ t) = ((spanDigits s).1, (spanDigits s).2 ++ t) := by
  induction s with
  | nil => exact absurd rfl h
  | cons b s ih =>
    rw [List.cons_append, spanDigits, spanDigits]
    rw [spanDigits] at h
    by_cases hb : isDigit b = true
    · rw [if_pos hb] at h ⊢
      rw [if_pos hb, ih h]
    · rw [if_neg hb, if_neg hb]
      rfl

theorem floatNumber_keeps (negative : Bool) (x : Option Double) :
    Keeps RunsOut (floatNumber negative x) := by
  intro s t _
  simp only [floatNumber]
  cases x.bind fun f => FiniteDouble.ofDouble? (signed negative f) <;> rfl

theorem floatNumber_nil_runsOut (negative : Bool) (x : Option Double) :
    RunsOut (floatNumber negative x []) := by
  rw [floatNumber]
  cases x.bind fun f => FiniteDouble.ofDouble? (signed negative f) <;> rfl

theorem wholeNumber_keeps (negative : Bool) (significand : Nat) :
    Keeps RunsOut (wholeNumber negative significand) := by
  intro s t h
  simp only [wholeNumber] at h ⊢
  generalize Integer.ofInt? _ = i at h ⊢
  cases i with
  | none => exact floatNumber_keeps _ _ s t h
  | some n =>
    by_cases hz : (negative && significand == 0) = true
    · simp only [if_pos hz] at h ⊢
      exact floatNumber_keeps _ _ s t h
    · simp only [if_neg hz]
      rfl

theorem wholeNumber_nil_runsOut (negative : Bool) (significand : Nat) :
    RunsOut (wholeNumber negative significand []) := by
  simp only [wholeNumber]
  generalize Integer.ofInt? _ = i
  cases i with
  | none => exact floatNumber_nil_runsOut _ _
  | some n =>
    by_cases hz : (negative && significand == 0) = true
    · simp only [if_pos hz]
      exact floatNumber_nil_runsOut _ _
    · simp only [if_neg hz]
      rfl

theorem exponentDigits_keeps (negative : Bool) (significand : Nat) (start : Int) (up : Bool)
    (exponent : Nat) : Keeps RunsOut (exponentDigits negative significand start up exponent) := by
  intro s t h
  induction s generalizing exponent with
  | nil => exact absurd (floatNumber_nil_runsOut _ _) h
  | cons b s ih =>
    simp only [List.cons_append, exponentDigits] at h ⊢
    by_cases hb : isDigit b = true
    · by_cases hnext : 10 * exponent + digitValue b ≤ maxExponent
      · simp only [if_pos hb, if_pos hnext] at h ⊢
        exact ih _ h
      by_cases hlarge : significand ≠ 0 ∧ up = true
      · simp only [if_pos hb, if_neg hnext, if_pos hlarge]
        rfl
      · simp only [if_pos hb, if_neg hnext, if_neg hlarge] at h ⊢
        by_cases hrest : (spanDigits s).2 = []
        · rw [hrest] at h
          exact absurd (floatNumber_nil_runsOut _ _) h
        · rw [spanDigits_append_of_ne_nil hrest]
          exact floatNumber_keeps _ _ _ t h
    · simp only [if_neg hb] at h ⊢
      exact floatNumber_keeps _ _ (b :: s) t h

theorem exponentSign_append {s : Bytes} (h : s ≠ []) (t : Bytes) :
    exponentSign (s ++ t) = ((exponentSign s).1, (exponentSign s).2 ++ t) := by
  cases s with
  | nil => exact absurd rfl h
  | cons b s =>
    rw [List.cons_append, exponentSign, exponentSign]
    by_cases hplus : b = 43
    · rw [if_pos hplus, if_pos hplus]
    by_cases hminus : b = 45
    · rw [if_neg hplus, if_pos hminus, if_neg hplus, if_pos hminus]
    · rw [if_neg hplus, if_neg hminus, if_neg hplus, if_neg hminus]
      rfl

theorem exponentPart_keeps (negative : Bool) (significand : Nat) (start : Int) :
    Keeps RunsOut (exponentPart negative significand start) := by
  intro s t h
  by_cases hs : s = []
  · subst hs
    exact absurd rfl h
  simp only [exponentPart] at h ⊢
  rw [exponentSign_append hs]
  cases hsign : (exponentSign s).2 with
  | nil =>
    rw [hsign] at h
    exact absurd rfl h
  | cons b r =>
    rw [hsign] at h
    simp only [List.cons_append] at h ⊢
    by_cases hb : isDigit b = true
    · simp only [if_pos hb] at h ⊢
      exact exponentDigits_keeps _ _ _ _ _ r t h
    · simp only [if_neg hb]
      rfl

theorem fractionPart_keeps (negative : Bool) (significand dropped : Nat) :
    Keeps RunsOut (fractionPart negative significand dropped) := by
  intro s t h
  simp only [fractionPart] at h ⊢
  cases hrest : (spanDigits s).2 with
  | nil =>
    simp only [hrest] at h
    refine absurd ?_ h
    by_cases hdigits : (spanDigits s).1.isEmpty = true
    · rw [if_pos hdigits]
      rfl
    · rw [if_neg hdigits]
      exact floatNumber_nil_runsOut _ _
  | cons b r =>
    rw [spanDigits_append_of_ne_nil (by rw [hrest]; exact List.cons_ne_nil b r)]
    simp only [hrest, List.cons_append] at h ⊢
    by_cases hdigits : (spanDigits s).1.isEmpty = true
    · simp only [if_pos hdigits]
      rfl
    simp only [if_neg hdigits] at h ⊢
    by_cases hmark : isExponentMark b = true
    · simp only [if_pos hmark] at h ⊢
      exact exponentPart_keeps _ _ _ r t h
    · simp only [if_neg hmark] at h ⊢
      exact floatNumber_keeps _ _ (b :: r) t h

theorem afterWhole_nil_runsOut (negative : Bool) (digits : Bytes) :
    RunsOut (afterWhole negative digits []) := by
  simp only [afterWhole]
  by_cases hall : (absorb 0 digits).2.isEmpty = true
  · rw [if_pos hall]
    exact wholeNumber_nil_runsOut _ _
  · rw [if_neg hall]
    exact floatNumber_nil_runsOut _ _

theorem afterWhole_keeps (negative : Bool) (digits : Bytes) :
    Keeps RunsOut (afterWhole negative digits) := by
  intro s t h
  cases s with
  | nil => exact absurd (afterWhole_nil_runsOut _ _) h
  | cons b r =>
    simp only [afterWhole, List.cons_append] at h ⊢
    by_cases hpoint : b = 46
    · simp only [if_pos hpoint] at h ⊢
      exact fractionPart_keeps _ _ _ r t h
    by_cases hmark : isExponentMark b = true
    · simp only [if_neg hpoint, if_pos hmark] at h ⊢
      exact exponentPart_keeps _ _ _ r t h
    by_cases hall : (absorb 0 digits).2.isEmpty = true
    · simp only [if_neg hpoint, if_neg hmark, if_pos hall] at h ⊢
      exact wholeNumber_keeps _ _ (b :: r) t h
    · simp only [if_neg hpoint, if_neg hmark, if_neg hall] at h ⊢
      exact floatNumber_keeps _ _ (b :: r) t h

theorem number_keeps (negative : Bool) : Keeps RunsOut (number negative) := by
  intro s t h
  cases s with
  | nil => exact absurd rfl h
  | cons b r =>
    simp only [number, List.cons_append] at h ⊢
    by_cases hzero : b = 48
    · simp only [if_pos hzero] at h ⊢
      cases r with
      | nil => exact absurd (afterWhole_nil_runsOut _ _) h
      | cons d r =>
        simp only [List.cons_append] at h ⊢
        by_cases hd : isDigit d = true
        · simp only [if_pos hd]
          rfl
        · simp only [if_neg hd] at h ⊢
          exact afterWhole_keeps _ _ (d :: r) t h
    by_cases hb : isDigit b = true
    · simp only [if_neg hzero, if_pos hb] at h ⊢
      have hrest : (spanDigits r).2 ≠ [] := by
        intro hnil
        rw [hnil] at h
        exact h (afterWhole_nil_runsOut _ _)
      rw [spanDigits_append_of_ne_nil hrest]
      exact afterWhole_keeps _ _ _ t h
    · simp only [if_neg hzero, if_neg hb]
      rfl

/-! ## Strings -/

theorem hexEscape_keeps : Keeps Asks hexEscape := by
  intro s t h
  rcases s with _ | ⟨a, _ | ⟨b, _ | ⟨c, _ | ⟨d, s⟩⟩⟩⟩
  · exact absurd rfl h
  · exact absurd rfl h
  · exact absurd rfl h
  · exact absurd rfl h
  · simp only [hexEscape, List.cons_append]
    cases hexValue4? a b c d <;> rfl

theorem pairByte_keeps (expected : UInt8) : Keeps Asks fun s => passing (pairByte expected s) := by
  intro s t h
  cases s with
  | nil => exact absurd rfl h
  | cons b s =>
    simp only [List.cons_append, pairByte]
    by_cases hb : b = expected
    · simp only [if_pos hb]
      rfl
    · simp only [if_neg hb]
      rfl

theorem unicodeEscape_keeps : Keeps Asks unicodeEscape := by
  intro s t h
  simp only [unicodeEscape] at h ⊢
  refine bind_followedBy_of_asks (fun _ => id) h (hexEscape_keeps s t) fun n rest h => ?_
  by_cases htrail : isTrailingSurrogate n = true
  · simp only [if_pos htrail]
    rfl
  by_cases hlead : isLeadingSurrogate n = true
  · simp only [if_neg htrail, if_pos hlead] at h ⊢
    refine bind_followedBy_of_passing (fun _ => id) h (pairByte_keeps 92 rest t) fun rest h => ?_
    refine bind_followedBy_of_passing (fun _ => id) h (pairByte_keeps 117 rest t) fun rest h => ?_
    refine bind_followedBy_of_asks (fun _ => id) h (hexEscape_keeps rest t) fun m rest h => ?_
    by_cases hm : isTrailingSurrogate m = true
    · simp only [if_pos hm]
      rfl
    · simp only [if_neg hm]
      rfl
  · simp only [if_neg htrail, if_neg hlead]
    rfl

theorem escape_keeps : Keeps Asks escape := by
  intro s t h
  cases s with
  | nil => exact absurd rfl h
  | cons letter s =>
    simp only [List.cons_append, escape] at h ⊢
    cases hshort : shortEscape? letter with
    | some b => rfl
    | none =>
      simp only [hshort] at h ⊢
      by_cases hu : letter = 117
      · simp only [if_pos hu] at h ⊢
        exact unicodeEscape_keeps s t h
      · simp only [if_neg hu]
        rfl

theorem stringBytesFrom_followedBy {fuel fuel' : Nat} (hfuel : fuel ≤ fuel') {s t : Bytes}
    (h : ¬ Asks (stringBytesFrom fuel s)) :
    stringBytesFrom fuel' (s ++ t) = followedBy t (stringBytesFrom fuel s) := by
  induction fuel generalizing fuel' s with
  | zero => cases s <;> exact absurd rfl h
  | succ fuel ih =>
    obtain ⟨k, rfl⟩ : ∃ k, fuel' = k + 1 := ⟨fuel' - 1, by omega⟩
    cases s with
    | nil => exact absurd rfl h
    | cons b s =>
      simp only [List.cons_append, stringBytesFrom] at h ⊢
      by_cases hend : b = 34
      · simp only [if_pos hend]
        rfl
      by_cases hescape : b = 92
      · simp only [if_neg hend, if_pos hescape] at h ⊢
        refine bind_followedBy_of_asks (fun _ => id) h (escape_keeps s t) fun bytes rest h => ?_
        exact bind_followedBy_of_asks (fun _ => id) h (ih (by omega)) fun _ _ _ => rfl
      by_cases hcontrol : b < 32
      · simp only [if_neg hend, if_neg hescape, if_pos hcontrol]
        rfl
      · simp only [if_neg hend, if_neg hescape, if_neg hcontrol] at h ⊢
        exact bind_followedBy_of_asks (fun _ => id) h (ih (by omega)) fun _ _ _ => rfl

theorem string_keeps : Keeps Asks string := by
  intro s t h
  simp only [string, stringBytes] at h ⊢
  refine bind_followedBy_of_asks (fun _ => id) h (stringBytesFrom_followedBy (by simp))
    fun bytes rest h => ?_
  simp only
  cases Utf8.decode? bytes <;> rfl

/-! ## Arrays and objects -/

section

variable {item : Bytes → Except Fault (Read α)}

theorem itemsAfter_followedBy (hitem : Keeps RunsOut item) {fuel fuel' : Nat}
    (hfuel : fuel ≤ fuel') {s t : Bytes} (h : ¬ Asks (itemsAfter item fuel s)) :
    itemsAfter item fuel' (s ++ t) = followedBy t (itemsAfter item fuel s) := by
  induction fuel generalizing fuel' s with
  | zero => exact absurd rfl h
  | succ fuel ih =>
    obtain ⟨k, rfl⟩ : ∃ k, fuel' = k + 1 := ⟨fuel' - 1, by omega⟩
    refine afterBlanks_followedBy h rfl fun b r h => ?_
    by_cases hend : b = 93
    · simp only [if_pos hend]
      rfl
    by_cases hcomma : b = 44
    · simp only [if_neg hend, if_pos hcomma] at h ⊢
      refine afterBlanks_followedBy h rfl fun c u h => ?_
      by_cases hc : c = 93
      · simp only [if_pos hc]
        rfl
      simp only [if_neg hc] at h ⊢
      refine bind_followedBy (fun _ => id) h (hitem (c :: u) t) (fun x rest h => ?_) ?_
      · exact bind_followedBy_of_asks (fun _ => id) h (ih (by omega)) fun _ _ _ => rfl
      · intro x
        show Asks (itemsAfter item fuel [] >>= _)
        cases fuel <;> rfl
    · simp only [if_neg hend, if_neg hcomma]
      rfl

theorem sequence_keeps (hitem : Keeps RunsOut item) : Keeps Asks (sequence item) := by
  intro s t h
  refine afterBlanks_followedBy h rfl fun b r h => ?_
  by_cases hend : b = 93
  · simp only [if_pos hend]
    rfl
  simp only [if_neg hend] at h ⊢
  refine bind_followedBy (fun _ => id) h (hitem (b :: r) t) (fun x rest h => ?_) fun _ => rfl
  exact bind_followedBy_of_asks (fun _ => id) h (itemsAfter_followedBy hitem (by simp))
    fun _ _ _ => rfl

theorem colon_keeps : Keeps Asks fun s => passing (colon s) := by
  intro s t h
  simp only [colon] at h ⊢
  cases hs : skipBlanks s with
  | nil =>
    rw [hs] at h
    exact absurd rfl h
  | cons b r =>
    rw [skipBlanks_append_cons hs]
    simp only
    by_cases hb : b = 58
    · simp only [if_pos hb]
      rfl
    · simp only [if_neg hb]
      rfl

theorem member_keeps (hitem : Keeps RunsOut item) : Keeps RunsOut (member item) := by
  intro s t h
  simp only [member] at h ⊢
  refine bind_followedBy_of_asks (fun _ => id) h (string_keeps s t) fun name rest h => ?_
  refine bind_followedBy_of_passing (fun _ => id) h (colon_keeps rest t) fun rest h => ?_
  exact bind_followedBy (fun _ => id) h (hitem rest t) (fun _ _ _ => rfl) fun _ => rfl

theorem membersAfter_followedBy (hitem : Keeps RunsOut item) {fuel fuel' : Nat}
    (hfuel : fuel ≤ fuel') {s t : Bytes} (h : ¬ Asks (membersAfter item fuel s)) :
    membersAfter item fuel' (s ++ t) = followedBy t (membersAfter item fuel s) := by
  induction fuel generalizing fuel' s with
  | zero => exact absurd rfl h
  | succ fuel ih =>
    obtain ⟨k, rfl⟩ : ∃ k, fuel' = k + 1 := ⟨fuel' - 1, by omega⟩
    refine afterBlanks_followedBy h rfl fun b r h => ?_
    by_cases hend : b = 125
    · simp only [if_pos hend]
      rfl
    by_cases hcomma : b = 44
    · simp only [if_neg hend, if_pos hcomma] at h ⊢
      refine afterBlanks_followedBy h rfl fun c u h => ?_
      by_cases hquote : c = 34
      · simp only [if_pos hquote] at h ⊢
        refine bind_followedBy (fun _ => id) h (member_keeps hitem u t) (fun m rest h => ?_) ?_
        · exact bind_followedBy_of_asks (fun _ => id) h (ih (by omega)) fun _ _ _ => rfl
        · intro m
          show Asks (membersAfter item fuel [] >>= _)
          cases fuel <;> rfl
      by_cases hc : c = 125
      · simp only [if_neg hquote, if_pos hc]
        rfl
      · simp only [if_neg hquote, if_neg hc]
        rfl
    · simp only [if_neg hend, if_neg hcomma]
      rfl

theorem membership_keeps (hitem : Keeps RunsOut item) : Keeps Asks (membership item) := by
  intro s t h
  refine afterBlanks_followedBy h rfl fun b r h => ?_
  by_cases hend : b = 125
  · simp only [if_pos hend]
    rfl
  by_cases hquote : b = 34
  · simp only [if_neg hend, if_pos hquote] at h ⊢
    refine bind_followedBy (fun _ => id) h (member_keeps hitem r t) (fun m rest h => ?_)
      fun _ => rfl
    exact bind_followedBy_of_asks (fun _ => id) h (membersAfter_followedBy hitem (by simp))
      fun _ _ _ => rfl
  · simp only [if_neg hend, if_neg hquote]
    rfl

theorem inContainer_keeps {f : Bytes → Except Fault (Read α)} (hf : Keeps Asks f) :
    Keeps Asks fun s => inContainer (f s) := by
  intro s t h
  have hs : ¬ Asks (f s) := by
    intro hasks
    apply h
    show Asks (inContainer (f s))
    cases hread : f s with
    | ok r =>
      rw [hread] at hasks
      exact hasks.elim
    | error e =>
      rw [hread] at hasks
      exact hasks
  show inContainer (f (s ++ t)) = followedBy t (inContainer (f s))
  rw [hf s t hs]
  cases f s <;> rfl

end

/-! ## Values -/

/-- What follows the input may still change what was read. -/
def Unsettled (r : Except Fault (Read Json)) : Prop := looksBehind r = true

theorem Unsettled.runsOut {r : Except Fault (Read Json)} (h : Unsettled r) : RunsOut r := by
  cases r with
  | error f => exact h
  | ok x =>
    rw [Unsettled, looksBehind, Bool.and_eq_true] at h
    exact List.isEmpty_iff.mp h.2

theorem Unsettled.of_followedBy {t : Bytes} {r : Except Fault (Read Json)}
    (h : Unsettled (followedBy t r)) : Unsettled r := by
  cases r with
  | ok x =>
    simp only [Unsettled, followedBy, looksBehind, Bool.and_eq_true, List.isEmpty_iff,
      List.append_eq_nil_iff] at h ⊢
    exact ⟨h.1, h.2.1⟩
  | error f =>
    simp only [Unsettled, followedBy, looksBehind, Fault.asksPastEnd, Bool.and_eq_true,
      List.isEmpty_iff, List.append_eq_nil_iff] at h ⊢
    exact ⟨h.1.1, h.2⟩

theorem valueOver_keeps {inner : Option (Bytes → Except Fault (Read Json))}
    (hinner : ∀ item, inner = some item → Keeps RunsOut item) :
    Keeps Unsettled (valueOver inner) := by
  intro s t h
  refine afterBlanks_followedBy h rfl fun b r h => ?_
  by_cases hnull : b = 110
  · simp only [if_pos hnull] at h ⊢
    exact bind_followedBy_of_passing (fun _ => id) h (keyword_keeps _ r t) fun _ _ => rfl
  by_cases htrue : b = 116
  · simp only [if_neg hnull, if_pos htrue] at h ⊢
    exact bind_followedBy_of_passing (fun _ => id) h (keyword_keeps _ r t) fun _ _ => rfl
  by_cases hfalse : b = 102
  · simp only [if_neg hnull, if_neg htrue, if_pos hfalse] at h ⊢
    exact bind_followedBy_of_passing (fun _ => id) h (keyword_keeps _ r t) fun _ _ => rfl
  simp only [if_neg hnull, if_neg htrue, if_neg hfalse] at h ⊢
  by_cases hminus : b = 45
  · simp only [if_pos hminus] at h ⊢
    exact bind_followedBy (fun _ => id) h (number_keeps true r t) (fun _ _ _ => rfl)
      fun _ => rfl
  by_cases hdigit : isDigit b = true
  · simp only [if_neg hminus, if_pos hdigit] at h ⊢
    exact bind_followedBy (fun _ => id) h (number_keeps false (b :: r) t) (fun _ _ _ => rfl)
      fun _ => rfl
  by_cases hquote : b = 34
  · simp only [if_neg hminus, if_neg hdigit, if_pos hquote] at h ⊢
    exact bind_followedBy_of_asks (fun _ => id) h (string_keeps r t) fun _ _ _ => rfl
  simp only [if_neg hminus, if_neg hdigit, if_neg hquote] at h ⊢
  by_cases hbracket : b = 91
  · simp only [if_pos hbracket] at h ⊢
    cases inner with
    | none => rfl
    | some item =>
      have hitems := inContainer_keeps (sequence_keeps (hinner item rfl))
      exact bind_followedBy_of_asks (fun _ => id) h (hitems r t) fun _ _ _ => rfl
  by_cases hbrace : b = 123
  · simp only [if_neg hbracket, if_pos hbrace] at h ⊢
    cases inner with
    | none => rfl
    | some item =>
      have hpairs := inContainer_keeps (membership_keeps (hinner item rfl))
      exact bind_followedBy_of_asks (fun _ => id) h (hpairs r t) fun _ _ _ => rfl
  · simp only [if_neg hbracket, if_neg hbrace]
    rfl

theorem value_keeps (depth : Nat) : Keeps Unsettled (value depth) := by
  induction depth with
  | zero => exact valueOver_keeps fun _ h => by cases h
  | succ depth ih =>
    refine valueOver_keeps fun item h => ?_
    cases h
    exact fun s t hs => ih s t fun hopen => hs hopen.runsOut

/-! ## The end of a document -/

theorem finish_append_of_error {x : α} {s : Bytes} {f : Fault} (h : finish x s = .error f)
    (t : Bytes) : finish x (s ++ t) = .error { f with rest := f.rest ++ t } := by
  rw [finish] at h ⊢
  cases hs : skipBlanks s with
  | nil =>
    rw [hs] at h
    cases h
  | cons b r =>
    rw [hs] at h
    rw [skipBlanks_append_cons hs]
    cases h
    rfl

theorem finish_append_of_ok {x y : α} {s : Bytes} (h : finish x s = .ok y) (t : Bytes) :
    finish x (s ++ t) = finish y t := by
  rw [finish] at h
  cases hs : skipBlanks s with
  | nil =>
    rw [hs] at h
    cases h
    rw [finish, finish, skipBlanks_append_of_eq_nil hs]
  | cons b r =>
    rw [hs] at h
    cases h

end Untagged.Json.Reader
