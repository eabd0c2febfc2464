import Untagged.Proofs.Json.Integers
import Untagged.Proofs.Json.Spelling

/-!
# White space outside strings

`unspaced` drops the white space of a document that stands outside its strings, and
nothing else.  It reads the bytes from the left and keeps track of the region it is
in, since a quote ends a string only where no backslash stands before it.

The statement this file exists for is `unspaced_spell`: whatever the layout, what is
left of a spelling is the spelling without white space.  So two layouts of a datum
differ in white space outside strings only.
-/

namespace Untagged.Json

/-- Where in a document a byte stands. -/
inductive Region where
  | outside
  | string
  /-- Inside a string and behind the backslash of an escape. -/
  | escape
  deriving DecidableEq

namespace Region

/-- The region behind a byte. -/
def next : Region → UInt8 → Region
  | outside, b => if b = 34 then string else outside
  | string, b => if b = 34 then outside else if b = 92 then escape else string
  | escape, _ => string

end Region

/-- The bytes without the white space outside of strings, read from a region on. -/
def unspacedFrom : Region → Bytes → Bytes
  | _, [] => []
  | r, b :: s =>
    if r = .outside ∧ Reader.isBlank b = true then unspacedFrom r s
    else b :: unspacedFrom (r.next b) s

/-- A document without the white space outside of its strings. -/
def unspaced (s : Bytes) : Bytes := unspacedFrom .outside s

/-! ## Outside of strings -/

theorem unspacedFrom_blanks {blanks : Bytes}
    (h : ∀ b ∈ blanks, Reader.isBlank b = true) (s : Bytes) :
    unspacedFrom .outside (blanks ++ s) = unspacedFrom .outside s := by
  induction blanks with
  | nil => rfl
  | cons b blanks ih =>
    rw [List.forall_mem_cons] at h
    rw [List.cons_append, unspacedFrom, if_pos ⟨rfl, h.1⟩, ih h.2]

/-- A byte that is neither white space nor a quote stays, and opens no string. -/
theorem unspacedFrom_outside {b : UInt8} (hblank : Reader.isBlank b = false) (hquote : b ≠ 34)
    (s : Bytes) : unspacedFrom .outside (b :: s) = b :: unspacedFrom .outside s := by
  have hstays : ¬ (Region.outside = .outside ∧ Reader.isBlank b = true) := by
    intro h
    rw [hblank] at h
    exact Bool.false_ne_true h.2
  rw [unspacedFrom, if_neg hstays, Region.next, if_neg hquote]

/-- Bytes above the quote's are neither white space nor quotes. -/
theorem unspacedFrom_above {bytes : Bytes} (h : ∀ b ∈ bytes, 34 < b) (s : Bytes) :
    unspacedFrom .outside (bytes ++ s) = bytes ++ unspacedFrom .outside s := by
  induction bytes with
  | nil => rfl
  | cons b bytes ih =>
    rw [List.forall_mem_cons] at h
    have hne : ∀ c : UInt8, c ≤ 34 → b ≠ c := by
      intro c hc hb
      rw [hb] at h
      exact absurd h.1 (UInt8.not_lt.mpr hc)
    have hblank : Reader.isBlank b = false := by
      simp only [Reader.isBlank, Bool.or_eq_false_iff, decide_eq_false_iff_not]
      exact ⟨⟨⟨hne 32 (by decide), hne 10 (by decide)⟩, hne 9 (by decide)⟩, hne 13 (by decide)⟩
    rw [List.cons_append, unspacedFrom_outside hblank (hne 34 (by decide)), ih h.2,
      List.cons_append]

/-! ## Inside a string -/

open Writer (escape? escaped unopened spell spellItems spellMembers)
open Reader (IsPlain hexByte)

theorem unspacedFrom_plain {bytes : Bytes} (h : ∀ b ∈ bytes, IsPlain b) (s : Bytes) :
    unspacedFrom .string (bytes ++ s) = bytes ++ unspacedFrom .string s := by
  induction bytes with
  | nil => rfl
  | cons b bytes ih =>
    rw [List.forall_mem_cons] at h
    obtain ⟨⟨-, hquote, hslash⟩, hbytes⟩ := h
    rw [List.cons_append, unspacedFrom, if_neg (by simp), Region.next, if_neg hquote,
      if_neg hslash, ih hbytes, List.cons_append]

/-- A backslash takes the byte behind it along, whatever that is. -/
theorem unspacedFrom_escape {t : Bytes} (h : ∀ b ∈ t, IsPlain b) (b : UInt8) (s : Bytes) :
    unspacedFrom .string (92 :: b :: (t ++ s)) = 92 :: b :: (t ++ unspacedFrom .string s) := by
  rw [unspacedFrom, if_neg (by simp), unspacedFrom, if_neg (by simp [Region.next])]
  show 92 :: b :: unspacedFrom .string (t ++ s) = _
  rw [unspacedFrom_plain h]

theorem isPlain_hexByte {k : Nat} (h : k < 16) : IsPlain (hexByte k) := by
  have all : ∀ k < 16, 32 ≤ hexByte k ∧ hexByte k ≠ 34 ∧ hexByte k ≠ 92 := by decide
  exact all k h

/-- An escape is a backslash, one more byte, and perhaps bytes that stand for
themselves. -/
theorem exists_escape {c : Char} {e : String} (h : escape? c = some e) :
    ∃ b t, Utf8.encode e = 92 :: b :: t ∧ ∀ x ∈ t, IsPlain x := by
  rcases Reader.escape?_cases h with ⟨b, hb, -⟩ | ⟨hc, hcode⟩
  · exact ⟨b, [], hb, nofun⟩
  · have hzero : IsPlain 48 := ⟨by decide, by decide, by decide⟩
    refine ⟨117, _, hcode, ?_⟩
    simp only [List.forall_mem_cons]
    exact ⟨hzero, hzero, isPlain_hexByte (by omega), isPlain_hexByte (by omega), nofun⟩

theorem unspacedFrom_escaped (c : Char) (s : Bytes) :
    unspacedFrom .string (escaped c ++ s) = escaped c ++ unspacedFrom .string s := by
  rw [escaped]
  cases he : escape? c with
  | some e =>
    obtain ⟨b, t, hbytes, ht⟩ := exists_escape he
    simp only [hbytes]
    exact unspacedFrom_escape ht b s
  | none => exact unspacedFrom_plain (Reader.isPlain_of_escape?_eq_none he) s

/-- A string stays as it is, up to the quote that closes it. -/
theorem unspacedFrom_unopened (text : String) (s : Bytes) :
    unspacedFrom .outside (34 :: (unopened text ++ s)) =
      34 :: (unopened text ++ unspacedFrom .outside s) := by
  have go (cs : List Char) :
      unspacedFrom .string (cs.flatMap escaped ++ (34 :: s)) =
        cs.flatMap escaped ++ (34 :: unspacedFrom .outside s) := by
    induction cs with
    | nil => rfl
    | cons c cs ih =>
      rw [List.flatMap_cons, List.append_assoc, unspacedFrom_escaped, ih, List.append_assoc]
  rw [unopened, List.append_assoc, List.append_assoc]
  show 34 :: unspacedFrom .string (text.toList.flatMap escaped ++ (34 :: s)) = _
  rw [go]
  rfl

/-! ## Scalars -/

/-- Every character of the text comes behind the quote in the order of codes. -/
def IsAbove (s : String) : Prop := ∀ c ∈ s.toList, 34 < c.toNat

/-- Character by character along the text. -/
instance (s : String) : Decidable (IsAbove s) := List.decidableBAll _ _

namespace IsAbove

theorem append {s t : String} (hs : IsAbove s) (ht : IsAbove t) : IsAbove (s ++ t) := by
  intro c hc
  rw [String.toList_append, List.mem_append] at hc
  rcases hc with hc | hc
  · exact hs c hc
  · exact ht c hc

theorem ofList {cs : List Char} (h : ∀ c ∈ cs, 34 < c.toNat) : IsAbove (String.ofList cs) := by
  intro c hc
  rw [String.toList_ofList] at hc
  exact h c hc

theorem bytes {s : String} (h : IsAbove s) : ∀ b ∈ Utf8.encode s, 34 < b := by
  intro b hb
  rw [Utf8.encode_eq_flatMap, List.mem_flatMap] at hb
  obtain ⟨c, hc, hb⟩ := hb
  by_cases hascii : c.toNat < 128
  · rw [Utf8.encodeChar_of_lt hascii, List.mem_singleton] at hb
    have habove := h c hc
    have hval : b.toNat = c.toNat := by
      rw [hb, UInt8.toNat_ofNat']
      exact Nat.mod_eq_of_lt (by omega)
    rw [UInt8.lt_iff_toNat_lt, hval]
    exact habove
  · exact UInt8.lt_of_lt_of_le (by decide) (Utf8.le_of_mem_encodeChar (by omega) hb)

theorem repr (n : Nat) : IsAbove (toString n) := by
  intro c hc
  have hdigit : c ∈ Nat.toDigits 10 n := by
    rwa [show toString n = n.repr from rfl, Nat.repr_eq_ofList_toDigits, String.toList_ofList] at hc
  have hbounds := Reader.bounds_of_isDigit (Reader.isDigit_of_mem_toDigits hdigit)
  omega

theorem zeros (k : Nat) : IsAbove (String.ofList (List.replicate k '0')) :=
  ofList fun c hc => by
    rw [List.eq_of_mem_replicate hc]
    decide

theorem int (i : Int) : IsAbove (toString i) := by
  cases i with
  | ofNat n => exact repr n
  | negSucc n =>
    have hminus : IsAbove "-" := by decide
    exact hminus.append (repr (n + 1))

theorem plainText {digits : String} (h : IsAbove digits) (k : Int) :
    IsAbove (Double.plainText digits k) := by
  have hpoint : IsAbove "." := by decide
  have hend : IsAbove ".0" := by decide
  have hstart : IsAbove "0." := by decide
  cases k with
  | ofNat k =>
    rw [Double.plainText]
    split
    · exact (h.append (zeros _)).append hend
    · refine ((ofList fun c hc => ?_).append hpoint).append (ofList fun c hc => ?_)
      · exact h c (List.mem_of_mem_take hc)
      · exact h c (List.mem_of_mem_drop hc)
  | negSucc k =>
    rw [Double.plainText]
    exact (hstart.append (zeros k)).append h

theorem scientificText {digits : String} (h : IsAbove digits) (k : Int) :
    IsAbove (Double.scientificText digits k) := by
  have hpoint : IsAbove "." := by decide
  have hmark : IsAbove "e" := by decide
  have hsign : IsAbove (if k < 0 then "-" else "+") := by
    split
    · decide
    · decide
  refine ((IsAbove.append ?_ hmark).append hsign).append (repr _)
  split
  · exact h
  · refine ((ofList fun c hc => ?_).append hpoint).append (ofList fun c hc => ?_)
    · exact h c (List.mem_of_mem_take hc)
    · exact h c (List.mem_of_mem_drop hc)

theorem decimalText (d : Decimal) : IsAbove (Double.decimalText d) := by
  rw [Double.decimalText]
  generalize (if d.digits = 0 then (0 : Int) else d.leadingExponent) = exponent
  split
  · exact plainText (repr _) exponent
  · exact scientificText (repr _) exponent

theorem floatText (x : Double) : IsAbove (Writer.floatText x) := by
  have hnull : IsAbove "null" := by decide
  have hsign : IsAbove (if x.isNegative then "-" else "") := by
    split
    · decide
    · decide
  rw [Writer.floatText]
  split
  · exact hsign.append (decimalText _)
  · exact hnull

theorem booleanText (b : Bool) : IsAbove (Writer.booleanText b) := by
  cases b with
  | true => decide
  | false => decide

end IsAbove

theorem unspacedFrom_scalar {text : String} (h : IsAbove text) (s : Bytes) :
    unspacedFrom .outside (Utf8.encode text ++ s) =
      Utf8.encode text ++ unspacedFrom .outside s :=
  unspacedFrom_above h.bytes s

/-! ## Data -/

/-- The marks between values stay. -/
theorem unspacedFrom_mark {b : UInt8} (h : b = 44 ∨ b = 58 ∨ b = 91 ∨ b = 93 ∨ b = 123 ∨ b = 125)
    (s : Bytes) : unspacedFrom .outside (b :: s) = b :: unspacedFrom .outside s := by
  rcases h with rfl | rfl | rfl | rfl | rfl | rfl <;>
    exact unspacedFrom_outside (by decide) (by decide) s

variable (L : Layout)

mutual

theorem unspacedFrom_spell (depth : Nat) : (d : Datum) → (s : Bytes) →
    unspacedFrom .outside (spell L depth d ++ s) =
      spell .tight depth d ++ unspacedFrom .outside s
  | .null, s => by
    rw [spell, spell]
    exact unspacedFrom_scalar (by decide) s
  | .boolean b, s => by
    rw [spell, spell]
    exact unspacedFrom_scalar (.booleanText b) s
  | .integer i, s => by
    rw [spell, spell]
    exact unspacedFrom_scalar (.int i.val) s
  | .float x, s => by
    rw [spell, spell]
    exact unspacedFrom_scalar (.floatText x) s
  | .string text, s => by
    rw [spell, spell]
    exact unspacedFrom_unopened text s
  | .sequence [], s => by
    rw [spell, spell]
    rfl
  | .sequence (d :: ds), s => by
    simp only [spell, List.cons_append, List.append_assoc, List.nil_append, Layout.tight_lead,
      unspacedFrom_mark, unspacedFrom_blanks (L.lead_blank _), unspacedFrom_spell (depth + 1) d,
      unspacedFrom_spellItems (depth + 1) ds, true_or, or_true]
  | .record [], s => by
    rw [spell, spell]
    rfl
  | .record ((name, d) :: ds), s => by
    simp only [spell, List.cons_append, List.append_assoc, List.nil_append, Layout.tight_lead,
      Layout.tight_gap, unspacedFrom_mark, unspacedFrom_blanks (L.lead_blank _),
      unspacedFrom_blanks L.gap_blank, unspacedFrom_unopened, unspacedFrom_spell (depth + 1) d,
      unspacedFrom_spellMembers (depth + 1) ds, true_or, or_true]

theorem unspacedFrom_spellItems (depth : Nat) : (ds : List Datum) → (s : Bytes) →
    unspacedFrom .outside (spellItems L depth ds ++ s) =
      spellItems .tight depth ds ++ unspacedFrom .outside s
  | [], s => by
    rw [spellItems, spellItems]
    rfl
  | d :: ds, s => by
    simp only [spellItems, List.cons_append, List.append_assoc, List.nil_append,
      Layout.tight_lead, unspacedFrom_mark, unspacedFrom_blanks (L.lead_blank _),
      unspacedFrom_spell depth d, unspacedFrom_spellItems depth ds, true_or]

theorem unspacedFrom_spellMembers (depth : Nat) : (ds : List (String × Datum)) → (s : Bytes) →
    unspacedFrom .outside (spellMembers L depth ds ++ s) =
      spellMembers .tight depth ds ++ unspacedFrom .outside s
  | [], s => by
    rw [spellMembers, spellMembers]
    rfl
  | (name, d) :: ds, s => by
    simp only [spellMembers, List.cons_append, List.append_assoc, List.nil_append,
      Layout.tight_lead, Layout.tight_gap, unspacedFrom_mark, unspacedFrom_blanks (L.lead_blank _),
      unspacedFrom_blanks L.gap_blank, unspacedFrom_unopened, unspacedFrom_spell depth d,
      unspacedFrom_spellMembers depth ds, true_or, or_true]

end

/-- Without its white space outside of strings, a spelling is the one that has
none. -/
theorem unspaced_spell (depth : Nat) (d : Datum) :
    unspaced (spell L depth d) = spell .tight depth d := by
  have h := unspacedFrom_spell L depth d []
  rwa [List.append_nil, unspacedFrom, List.append_nil] at h

end Untagged.Json
