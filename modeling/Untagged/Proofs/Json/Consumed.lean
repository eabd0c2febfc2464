import Untagged.Json.Source
import Untagged.Proofs.Text.Utf8

/-!
# What the grammar consumes is text

A reader of the grammar that succeeds has passed over bytes that are text, although
it looks at bytes only.  Outside of strings every byte that is accepted is ASCII.
Inside of strings any byte may stand, and whether the bytes of the string are text
is asked once escapes have been replaced; an escape stands for a whole character,
so the bytes around it are text on their own (`stringBytesFrom_passes`).

The statement this file exists for is `isText_of_document`: a document that is
read is text.
-/

namespace Untagged.Json.Reader

open Utf8 (IsText isText_nil isText_singleton)

/-- A step of a reader that succeeds has a first part that does. -/
theorem bind_eq_ok {ε α β : Type} {x : Except ε α} {f : α → Except ε β} {b : β} :
    (x >>= f) = .ok b ↔ ∃ a, x = .ok a ∧ f a = .ok b := by
  cases x with
  | ok a =>
    show f a = .ok b ↔ _
    simp
  | error e =>
    show Except.error e = .ok b ↔ _
    simp

/-! ## Passing over text -/

/-- The bytes of `s` before `rest` are text. -/
def Passes (s rest : Bytes) : Prop := ∃ p, s = p ++ rest ∧ IsText p

namespace Passes

theorem refl (s : Bytes) : Passes s s := ⟨[], rfl, isText_nil⟩

theorem trans {s t rest : Bytes} (h : Passes s t) (h' : Passes t rest) : Passes s rest := by
  obtain ⟨p, rfl, hp⟩ := h
  obtain ⟨q, rfl, hq⟩ := h'
  exact ⟨p ++ q, (List.append_assoc p q rest).symm, hp.append hq⟩

theorem cons {b : UInt8} (hb : b < 128) {s rest : Bytes} (h : Passes s rest) :
    Passes (b :: s) rest := by
  obtain ⟨p, rfl, hp⟩ := h
  exact ⟨b :: p, rfl, (isText_singleton hb).append hp⟩

theorem isText {s : Bytes} (h : Passes s []) : IsText s := by
  obtain ⟨p, rfl, hp⟩ := h
  rwa [List.append_nil]

end Passes

/-! ## Single bytes -/

theorem lt_of_isBlank {b : UInt8} (h : isBlank b = true) : b < 128 := by
  simp only [isBlank, Bool.or_eq_true, decide_eq_true_eq] at h
  rcases h with ((rfl | rfl) | rfl) | rfl <;> decide

theorem lt_of_isDigit {b : UInt8} (h : isDigit b = true) : b < 128 := by
  simp only [isDigit, Bool.and_eq_true, decide_eq_true_eq] at h
  exact UInt8.lt_of_le_of_lt h.2 (by decide)

theorem lt_of_isExponentMark {b : UInt8} (h : isExponentMark b = true) : b < 128 := by
  simp only [isExponentMark, Bool.or_eq_true, decide_eq_true_eq] at h
  rcases h with rfl | rfl <;> decide

theorem lt_of_hexValue? {b : UInt8} {n : Nat} (h : hexValue? b = some n) : b < 128 := by
  simp only [hexValue?, Bool.and_eq_true, decide_eq_true_eq] at h
  split at h
  · next hb => exact UInt8.lt_of_le_of_lt hb.2 (by decide)
  · split at h
    · next hb => exact UInt8.lt_of_le_of_lt hb.2 (by decide)
    · split at h
      · next hb => exact UInt8.lt_of_le_of_lt hb.2 (by decide)
      · cases h

theorem skipBlanks_passes (s : Bytes) : Passes s (skipBlanks s) := by
  induction s with
  | nil => exact .refl _
  | cons b s ih =>
    rw [skipBlanks]
    by_cases hb : isBlank b = true
    · rw [if_pos hb]
      exact ih.cons (lt_of_isBlank hb)
    · rw [if_neg hb]
      exact .refl _

theorem keyword_passes {cs s rest : Bytes} (hcs : ∀ c ∈ cs, c < 128)
    (h : keyword cs s = .ok rest) : Passes s rest := by
  induction cs generalizing s with
  | nil =>
    cases h
    exact .refl _
  | cons c cs ih =>
    rw [List.forall_mem_cons] at hcs
    cases s with
    | nil => cases h
    | cons b s =>
      rw [keyword] at h
      split at h
      · next hbc => exact (ih hcs.2 h).cons (hbc ▸ hcs.1)
      · cases h

/-! ## Numbers -/

theorem spanDigits_passes (s : Bytes) : Passes s (spanDigits s).2 := by
  induction s with
  | nil => exact .refl _
  | cons b s ih =>
    rw [spanDigits]
    by_cases hb : isDigit b = true
    · rw [if_pos hb]
      exact ih.cons (lt_of_isDigit hb)
    · rw [if_neg hb]
      exact .refl _

theorem floatNumber_rest {negative : Bool} {x : Option Double} {s rest : Bytes} {n : Number}
    (h : floatNumber negative x s = .ok (n, rest)) : rest = s := by
  rw [floatNumber] at h
  split at h
  · exact (congrArg Prod.snd (Except.ok.inj h)).symm
  · cases h

theorem wholeNumber_rest {negative : Bool} {significand : Nat} {s rest : Bytes} {n : Number}
    (h : wholeNumber negative significand s = .ok (n, rest)) : rest = s := by
  rw [wholeNumber] at h
  split at h
  · split at h
    · exact floatNumber_rest h
    · exact (congrArg Prod.snd (Except.ok.inj h)).symm
  · exact floatNumber_rest h

theorem exponentDigits_passes {negative : Bool} {significand : Nat} {start : Int} {up : Bool}
    {exponent : Nat} {s rest : Bytes} {n : Number}
    (h : exponentDigits negative significand start up exponent s = .ok (n, rest)) :
    Passes s rest := by
  induction s generalizing exponent with
  | nil => exact floatNumber_rest h ▸ .refl _
  | cons b s ih =>
    rw [exponentDigits] at h
    split at h
    · next hb =>
      simp only at h
      split at h
      · exact (ih h).cons (lt_of_isDigit hb)
      · split at h
        · cases h
        · rw [floatNumber_rest h]
          exact (spanDigits_passes s).cons (lt_of_isDigit hb)
    · exact floatNumber_rest h ▸ .refl _

theorem exponentSign_passes (s : Bytes) : Passes s (exponentSign s).2 := by
  cases s with
  | nil => exact .refl _
  | cons b s =>
    rw [exponentSign]
    split
    · next hb => exact (Passes.refl s).cons (by rw [hb]; decide)
    · split
      · next hb => exact (Passes.refl s).cons (by rw [hb]; decide)
      · exact .refl _

theorem exponentPart_passes {negative : Bool} {significand : Nat} {start : Int}
    {s rest : Bytes} {n : Number}
    (h : exponentPart negative significand start s = .ok (n, rest)) : Passes s rest := by
  refine (exponentSign_passes s).trans ?_
  rw [exponentPart] at h
  simp only at h
  split at h
  · cases h
  · next b r hs =>
    rw [hs]
    split at h
    · next hb => exact (exponentDigits_passes h).cons (lt_of_isDigit hb)
    · cases h

theorem fractionPart_passes {negative : Bool} {significand dropped : Nat} {s rest : Bytes}
    {n : Number} (h : fractionPart negative significand dropped s = .ok (n, rest)) :
    Passes s rest := by
  refine (spanDigits_passes s).trans ?_
  rw [fractionPart] at h
  simp only at h
  split at h
  · cases h
  · split at h
    · next hnil =>
      rw [floatNumber_rest h, hnil]
      exact .refl _
    · next b r hcons =>
      rw [hcons]
      split at h
      · next hb => exact (exponentPart_passes h).cons (lt_of_isExponentMark hb)
      · exact floatNumber_rest h ▸ .refl _

theorem afterWhole_passes {negative : Bool} {digits s rest : Bytes} {n : Number}
    (h : afterWhole negative digits s = .ok (n, rest)) : Passes s rest := by
  -- Without fraction and exponent nothing more is read.
  have plain : ∀ {t : Bytes},
      (if (absorb 0 digits).2.isEmpty then wholeNumber negative (absorb 0 digits).1 t
        else floatNumber negative
          (scaled? (absorb 0 digits).1 (absorb 0 digits).2.length) t) = .ok (n, rest) →
      Passes t rest := by
    intro t ht
    split at ht
    · exact wholeNumber_rest ht ▸ .refl _
    · exact floatNumber_rest ht ▸ .refl _
  rw [afterWhole] at h
  simp only at h
  cases s with
  | nil => exact plain h
  | cons b r =>
    simp only at h
    split at h
    · next hb => exact (fractionPart_passes h).cons (by rw [hb]; decide)
    · split at h
      · next hb => exact (exponentPart_passes h).cons (lt_of_isExponentMark hb)
      · exact plain h

theorem number_passes {negative : Bool} {s rest : Bytes} {n : Number}
    (h : number negative s = .ok (n, rest)) : Passes s rest := by
  cases s with
  | nil => cases h
  | cons b r =>
    rw [number.eq_def] at h
    dsimp only at h
    split at h
    · next hb =>
      have hlt : b < 128 := by rw [hb]; decide
      split at h
      · split at h
        · cases h
        · exact (afterWhole_passes h).cons hlt
      · exact (afterWhole_passes h).cons hlt
    · split at h
      · next hb =>
        exact ((spanDigits_passes r).trans (afterWhole_passes h)).cons (lt_of_isDigit hb)
      · cases h

/-! ## Strings -/

theorem hexEscape_passes {s rest : Bytes} {n : Nat} (h : hexEscape s = .ok (n, rest)) :
    Passes s rest := by
  match s, h with
  | a :: b :: c :: d :: t, h =>
    rw [hexEscape] at h
    split at h
    · next m hm =>
      obtain rfl : t = rest := congrArg Prod.snd (Except.ok.inj h)
      simp only [hexValue4?, Option.bind_eq_bind, Option.bind_eq_some_iff] at hm
      obtain ⟨_, ha, _, hb, _, hc, _, hd, -⟩ := hm
      exact ((((Passes.refl t).cons (lt_of_hexValue? hd)).cons (lt_of_hexValue? hc)).cons
        (lt_of_hexValue? hb)).cons (lt_of_hexValue? ha)
    · cases h

theorem pairByte_passes {expected : UInt8} (he : expected < 128) {s rest : Bytes}
    (h : pairByte expected s = .ok rest) : Passes s rest := by
  cases s with
  | nil => cases h
  | cons b s =>
    rw [pairByte] at h
    split at h
    · next hb =>
      cases h
      exact (Passes.refl _).cons (hb ▸ he)
    · cases h

/-- An escape by numbers stands for a whole character. -/
theorem unicodeEscape_passes {s rest bytes : Bytes} (h : unicodeEscape s = .ok (bytes, rest)) :
    Passes s rest ∧ ∃ c, bytes = String.utf8EncodeChar c := by
  rw [unicodeEscape, bind_eq_ok] at h
  obtain ⟨⟨n, t⟩, ht, h⟩ := h
  have hst := hexEscape_passes ht
  simp only at h
  split at h
  · cases h
  · split at h
    · simp only [bind_eq_ok] at h
      obtain ⟨t₁, h₁, t₂, h₂, ⟨m, t₃⟩, h₃, h⟩ := h
      simp only at h
      split at h
      · obtain ⟨hbytes, rfl⟩ := Prod.mk.inj (Except.ok.inj h)
        exact ⟨((hst.trans (pairByte_passes (by decide) h₁)).trans
          (pairByte_passes (by decide) h₂)).trans (hexEscape_passes h₃), _, hbytes.symm⟩
      · cases h
    · obtain ⟨hbytes, rfl⟩ := Prod.mk.inj (Except.ok.inj h)
      exact ⟨hst, _, hbytes.symm⟩

/-- A letter with a short escape and the byte that it stands for are ASCII. -/
theorem lt_of_shortEscape? {letter b : UInt8} (h : shortEscape? letter = some b) :
    letter < 128 ∧ b < 128 := by
  rw [UInt8.lt_iff_toNat_lt]
  simp only [shortEscape?] at h
  split at h
  case h_9 => cases h
  all_goals
    next hl =>
      cases h
      exact ⟨by rw [hl]; decide, by decide⟩

theorem escape_passes {s rest bytes : Bytes} (h : escape s = .ok (bytes, rest)) :
    Passes s rest ∧ ∃ c, bytes = String.utf8EncodeChar c := by
  cases s with
  | nil => cases h
  | cons letter s =>
    rw [escape] at h
    split at h
    · next b hb =>
      cases h
      obtain ⟨hletter, hlt⟩ := lt_of_shortEscape? hb
      refine ⟨(Passes.refl _).cons hletter, Char.ofNat b.toNat, ?_⟩
      exact (Utf8.encodeChar_ofNat hlt).symm
    · split at h
      · next hu =>
        obtain ⟨hs, hc⟩ := unicodeEscape_passes h
        exact ⟨hs.cons (by rw [hu]; decide), hc⟩
      · cases h

/-- If the bytes of a string are text, behind some bytes of it that were read before,
then so are the bytes that were consumed for them. -/
theorem stringBytesFrom_passes {fuel : Nat} {s bytes rest before : Bytes}
    (h : stringBytesFrom fuel s = .ok (bytes, rest)) (htext : IsText (before ++ bytes)) :
    ∃ p, s = p ++ rest ∧ IsText (before ++ p) := by
  -- `before` holds the bytes of a character that is not yet whole.  It grows byte by
  -- byte and starts anew behind an escape.
  induction fuel generalizing s bytes before with
  | zero => cases s <;> cases h
  | succ fuel ih =>
    cases s with
    | nil => cases h
    | cons b s =>
      rw [stringBytesFrom] at h
      split at h
      · next hb =>
        cases h
        rw [List.append_nil] at htext
        exact ⟨[b], rfl, htext.append (isText_singleton (by rw [hb]; decide))⟩
      · split at h
        · next hb =>
          simp only [bind_eq_ok] at h
          obtain ⟨⟨esc, t⟩, ht, ⟨more, t'⟩, hmore, h⟩ := h
          cases h
          obtain ⟨⟨q, rfl, hq⟩, c, rfl⟩ := escape_passes ht
          obtain ⟨hbefore, htail⟩ := htext.around_char
          have htail : IsText ([] ++ more) := htail
          obtain ⟨p, rfl, hp⟩ := ih hmore htail
          refine ⟨b :: (q ++ p), by simp, hbefore.append ?_⟩
          exact (isText_singleton (by rw [hb]; decide)).append (hq.append hp)
        · split at h
          · cases h
          · rw [bind_eq_ok] at h
            obtain ⟨⟨more, t⟩, hmore, h⟩ := h
            cases h
            have htext : IsText ((before ++ [b]) ++ more) := by simpa using htext
            obtain ⟨p, rfl, hp⟩ := ih hmore htext
            exact ⟨b :: p, rfl, by simpa using hp⟩

theorem string_passes {s rest : Bytes} {text : String} (h : string s = .ok (text, rest)) :
    Passes s rest := by
  rw [string, bind_eq_ok] at h
  obtain ⟨⟨bytes, t⟩, ht, h⟩ := h
  simp only at h
  split at h
  · next s' hs' =>
    cases h
    have hbytes : IsText ([] ++ bytes) := ⟨_, Utf8.decode?_eq_some_iff.mp hs'⟩
    exact stringBytesFrom_passes ht hbytes
  · cases h

/-! ## Arrays and objects -/

section

variable {α : Type} {item : Bytes → Except Fault (Read α)}

theorem passes_of_skipBlanks_eq {s rest : Bytes} (h : skipBlanks s = rest) : Passes s rest :=
  h ▸ skipBlanks_passes s

theorem itemsAfter_passes (hitem : ∀ s x rest, item s = .ok (x, rest) → Passes s rest)
    {fuel : Nat} {s rest : Bytes} {xs : List α} (h : itemsAfter item fuel s = .ok (xs, rest)) :
    Passes s rest := by
  induction fuel generalizing s xs with
  | zero => cases h
  | succ fuel ih =>
    rw [itemsAfter] at h
    split at h
    · cases h
    · next b r hs =>
      refine (passes_of_skipBlanks_eq hs).trans ?_
      split at h
      · next hb =>
        cases h
        exact (Passes.refl _).cons (by rw [hb]; decide)
      · split at h
        · next hb =>
          refine Passes.cons (by rw [hb]; decide) ?_
          split at h
          · cases h
          · next c t hr =>
            refine (passes_of_skipBlanks_eq hr).trans ?_
            split at h
            · cases h
            · simp only [bind_eq_ok] at h
              obtain ⟨⟨x, t₁⟩, h₁, ⟨ys, t₂⟩, h₂, h⟩ := h
              cases h
              exact (hitem _ _ _ h₁).trans (ih h₂)
        · cases h

theorem sequence_passes (hitem : ∀ s x rest, item s = .ok (x, rest) → Passes s rest)
    {s rest : Bytes} {xs : List α} (h : sequence item s = .ok (xs, rest)) : Passes s rest := by
  rw [sequence] at h
  split at h
  · cases h
  · next b r hs =>
    refine (passes_of_skipBlanks_eq hs).trans ?_
    split at h
    · next hb =>
      cases h
      exact (Passes.refl _).cons (by rw [hb]; decide)
    · simp only [bind_eq_ok] at h
      obtain ⟨⟨x, t₁⟩, h₁, ⟨ys, t₂⟩, h₂, h⟩ := h
      cases h
      exact (hitem _ _ _ h₁).trans (itemsAfter_passes hitem h₂)

theorem colon_passes {s rest : Bytes} (h : colon s = .ok rest) : Passes s rest := by
  rw [colon] at h
  split at h
  · cases h
  · next b r hs =>
    split at h
    · next hb =>
      cases h
      exact (passes_of_skipBlanks_eq hs).trans ((Passes.refl _).cons (by rw [hb]; decide))
    · cases h

theorem member_passes (hitem : ∀ s x rest, item s = .ok (x, rest) → Passes s rest)
    {s rest : Bytes} {m : String × α} (h : member item s = .ok (m, rest)) : Passes s rest := by
  simp only [member, bind_eq_ok] at h
  obtain ⟨⟨name, t₁⟩, h₁, t₂, h₂, ⟨x, t₃⟩, h₃, h⟩ := h
  cases h
  exact ((string_passes h₁).trans (colon_passes h₂)).trans (hitem _ _ _ h₃)

theorem membersAfter_passes (hitem : ∀ s x rest, item s = .ok (x, rest) → Passes s rest)
    {fuel : Nat} {s rest : Bytes} {ms : List (String × α)}
    (h : membersAfter item fuel s = .ok (ms, rest)) : Passes s rest := by
  induction fuel generalizing s ms with
  | zero => cases h
  | succ fuel ih =>
    rw [membersAfter] at h
    split at h
    · cases h
    · next b r hs =>
      refine (passes_of_skipBlanks_eq hs).trans ?_
      split at h
      · next hb =>
        cases h
        exact (Passes.refl _).cons (by rw [hb]; decide)
      · split at h
        · next hb =>
          refine Passes.cons (by rw [hb]; decide) ?_
          split at h
          · cases h
          · next c t hr =>
            refine (passes_of_skipBlanks_eq hr).trans ?_
            split at h
            · next hc =>
              simp only [bind_eq_ok] at h
              obtain ⟨⟨m, t₁⟩, h₁, ⟨ns, t₂⟩, h₂, h⟩ := h
              cases h
              exact ((member_passes hitem h₁).trans (ih h₂)).cons (by rw [hc]; decide)
            · split at h <;> cases h
        · cases h

theorem membership_passes (hitem : ∀ s x rest, item s = .ok (x, rest) → Passes s rest)
    {s rest : Bytes} {ms : List (String × α)} (h : membership item s = .ok (ms, rest)) :
    Passes s rest := by
  rw [membership] at h
  split at h
  · cases h
  · next b r hs =>
    refine (passes_of_skipBlanks_eq hs).trans ?_
    split at h
    · next hb =>
      cases h
      exact (Passes.refl _).cons (by rw [hb]; decide)
    · split at h
      · next hb =>
        simp only [bind_eq_ok] at h
        obtain ⟨⟨m, t₁⟩, h₁, ⟨ns, t₂⟩, h₂, h⟩ := h
        cases h
        exact ((member_passes hitem h₁).trans (membersAfter_passes hitem h₂)).cons
          (by rw [hb]; decide)
      · cases h

theorem inContainer_eq_ok {r : Except Fault (Read α)} {x : Read α} :
    inContainer r = .ok x ↔ r = .ok x := by
  cases r with
  | ok y => rfl
  | error f => exact ⟨nofun, nofun⟩

end

/-! ## Values and documents -/

theorem valueOver_passes {inner : Option (Bytes → Except Fault (Read Json))}
    (hinner : ∀ item, inner = some item → ∀ s x rest, item s = .ok (x, rest) → Passes s rest)
    {s rest : Bytes} {v : Json} (h : valueOver inner s = .ok (v, rest)) : Passes s rest := by
  rw [valueOver] at h
  split at h
  · cases h
  · next b r hs =>
    refine (passes_of_skipBlanks_eq hs).trans ?_
    split at h
    · next hb =>
      obtain ⟨t, ht, h⟩ := bind_eq_ok.mp h
      cases h
      exact (keyword_passes (by simp) ht).cons (by rw [hb]; decide)
    split at h
    · next hb =>
      obtain ⟨t, ht, h⟩ := bind_eq_ok.mp h
      cases h
      exact (keyword_passes (by simp) ht).cons (by rw [hb]; decide)
    split at h
    · next hb =>
      obtain ⟨t, ht, h⟩ := bind_eq_ok.mp h
      cases h
      exact (keyword_passes (by simp) ht).cons (by rw [hb]; decide)
    split at h
    · next hb =>
      obtain ⟨⟨n, t⟩, ht, h⟩ := bind_eq_ok.mp h
      cases h
      exact (number_passes ht).cons (by rw [hb]; decide)
    split at h
    · obtain ⟨⟨n, t⟩, ht, h⟩ := bind_eq_ok.mp h
      cases h
      exact number_passes ht
    split at h
    · next hb =>
      obtain ⟨⟨text, t⟩, ht, h⟩ := bind_eq_ok.mp h
      cases h
      exact (string_passes ht).cons (by rw [hb]; decide)
    split at h
    · next hb =>
      split at h
      · cases h
      · next item =>
        obtain ⟨⟨items, t⟩, ht, h⟩ := bind_eq_ok.mp h
        cases h
        exact (sequence_passes (hinner item rfl) (inContainer_eq_ok.mp ht)).cons
          (by rw [hb]; decide)
    split at h
    · next hb =>
      split at h
      · cases h
      · next item =>
        obtain ⟨⟨pairs, t⟩, ht, h⟩ := bind_eq_ok.mp h
        cases h
        exact (membership_passes (hinner item rfl) (inContainer_eq_ok.mp ht)).cons
          (by rw [hb]; decide)
    · cases h

theorem value_passes {depth : Nat} {s rest : Bytes} {v : Json}
    (h : value depth s = .ok (v, rest)) : Passes s rest := by
  induction depth generalizing s rest v with
  | zero => exact valueOver_passes (fun _ hi => by cases hi) h
  | succ depth ih =>
    refine valueOver_passes (fun item hi s' x rest' hx => ?_) h
    cases hi
    exact ih hx

theorem isText_of_document {s : Bytes} {v : Json} (h : document s = .ok v) : IsText s := by
  rw [document, documentWithin, bind_eq_ok] at h
  obtain ⟨⟨w, rest⟩, hw, h⟩ := h
  simp only [finish] at h
  split at h
  · next hrest => exact ((value_passes hw).trans (passes_of_skipBlanks_eq hrest)).isText
  · cases h

end Untagged.Json.Reader
