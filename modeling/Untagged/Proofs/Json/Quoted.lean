import Untagged.Json.Source
import Untagged.Json.Writer
import Untagged.Proofs.Text.Utf8

/-!
# Strings are read back

The pieces of a string, joined, are its characters one by one, each as its own
bytes or as its escape (`bytes_stringPieces`).  Reading undoes this character by
character: an escape is read as the bytes of the character that it stands for, and
the bytes of a character without one are none that a string may not hold.
-/

namespace Untagged

namespace Writer

/-- The bytes of some pieces of text. -/
def bytes (pieces : List String) : Bytes := pieces.flatMap Utf8.encode

/-- The bytes of a character inside a string. -/
def escaped (c : Char) : Bytes :=
  match escape? c with
  | some e => Utf8.encode e
  | none => String.utf8EncodeChar c

/-- The bytes of a string behind its opening quote. -/
def unopened (s : String) : Bytes := s.toList.flatMap escaped ++ [34]

theorem bytes_nil : bytes [] = [] := rfl

theorem bytes_append (ps qs : List String) : bytes (ps ++ qs) = bytes ps ++ bytes qs :=
  List.flatMap_append

theorem bytes_cons (p : String) (ps : List String) :
    bytes (p :: ps) = Utf8.encode p ++ bytes ps :=
  List.flatMap_cons

theorem bytes_singleton (p : String) : bytes [p] = Utf8.encode p := by
  rw [bytes_cons, bytes_nil, List.append_nil]

theorem bytes_runs (run cs : List Char) :
    bytes (runs run cs) = run.reverse.flatMap String.utf8EncodeChar ++ cs.flatMap escaped := by
  have flush (run : List Char) (ps : List String) :
      bytes (if run.isEmpty then ps else String.ofList run.reverse :: ps) =
        run.reverse.flatMap String.utf8EncodeChar ++ bytes ps := by
    cases run with
    | nil => rfl
    | cons c run =>
      rw [if_neg (by simp), bytes_cons, Utf8.encode_ofList]
  induction cs generalizing run with
  | nil =>
    rw [runs, List.flatMap_nil]
    exact flush run []
  | cons c cs ih =>
    rw [runs, List.flatMap_cons]
    cases he : escape? c with
    | some e =>
      have hc : escaped c = Utf8.encode e := by rw [escaped, he]
      simp only
      rw [flush run, bytes_cons, ih, hc]
      simp
    | none =>
      have hc : escaped c = String.utf8EncodeChar c := by rw [escaped, he]
      simp only
      rw [ih, hc, List.reverse_cons, List.flatMap_append]
      simp

theorem bytes_stringPieces (s : String) : bytes (stringPieces s) = 34 :: unopened s := by
  have hquote : Utf8.encode "\"" = [34] := by decide +kernel
  rw [stringPieces, List.cons_append, bytes_cons, bytes_append, bytes_runs, bytes_cons, hquote]
  rfl

end Writer

namespace Json.Reader

open Writer (escape? escaped)

/-! ## Escapes -/

/-- The byte of a hexadecimal digit. -/
def hexByte (k : Nat) : UInt8 := UInt8.ofNat (Nat.digitChar k).toNat

theorem encode_hexPair {n : Nat} (h : n < 256) :
    Utf8.encode (Writer.hexPair n) = [hexByte (n / 16), hexByte (n % 16)] := by
  have ascii : ∀ k < 16, (Nat.digitChar k).toNat < 128 := by decide
  rw [Writer.hexPair, Utf8.encode_ofList, List.flatMap_cons, List.flatMap_singleton,
    Utf8.encodeChar_of_lt (ascii _ (by omega)), Utf8.encodeChar_of_lt (ascii _ (by omega))]
  rfl

theorem hexValue?_hexByte {k : Nat} (h : k < 16) : hexValue? (hexByte k) = some k := by
  have all : ∀ k < 16, hexValue? (hexByte k) = some k := by decide
  exact all k h

theorem hexEscape_hexByte {n : Nat} (h : n < 256) (rest : Bytes) :
    hexEscape (48 :: 48 :: hexByte (n / 16) :: hexByte (n % 16) :: rest) = .ok (n, rest) := by
  have hzero : hexValue? 48 = some 0 := by decide
  have hvalue : hexValue4? 48 48 (hexByte (n / 16)) (hexByte (n % 16)) = some n := by
    simp only [hexValue4?, hzero, hexValue?_hexByte (show n / 16 < 16 by omega),
      hexValue?_hexByte (show n % 16 < 16 by omega), Option.bind_eq_bind, Option.bind_some]
    congr 1
    omega
  rw [hexEscape, hvalue]

/-- An escape is a backslash and one letter that is read as the character, or it
gives the code of a control character. -/
theorem escape?_cases {c : Char} {e : String} (h : escape? c = some e) :
    (∃ b, Utf8.encode e = [92, b] ∧
      ∀ rest, escape (b :: rest) = .ok (String.utf8EncodeChar c, rest)) ∨
    c.toNat < 32 ∧
      Utf8.encode e = [92, 117, 48, 48, hexByte (c.toNat / 16), hexByte (c.toNat % 16)] := by
  unfold escape? at h
  split at h
  · next hc =>
    cases h
    exact .inl ⟨34, by decide +kernel, fun rest => by rw [hc]; rfl⟩
  split at h
  · next hc =>
    cases h
    exact .inl ⟨92, by decide +kernel, fun rest => by rw [hc]; rfl⟩
  split at h
  · next hc =>
    cases h
    exact .inl ⟨98, by decide +kernel, fun rest => by rw [hc]; rfl⟩
  split at h
  · next hc =>
    cases h
    exact .inl ⟨102, by decide +kernel, fun rest => by rw [hc]; rfl⟩
  split at h
  · next hc =>
    cases h
    exact .inl ⟨110, by decide +kernel, fun rest => by rw [hc]; rfl⟩
  split at h
  · next hc =>
    cases h
    exact .inl ⟨114, by decide +kernel, fun rest => by rw [hc]; rfl⟩
  split at h
  · next hc =>
    cases h
    exact .inl ⟨116, by decide +kernel, fun rest => by rw [hc]; rfl⟩
  split at h
  · next hc =>
    cases h
    have hlead : Utf8.encode "\\u00" = [92, 117, 48, 48] := by decide +kernel
    refine .inr ⟨hc, ?_⟩
    rw [Utf8.encode_append, hlead, encode_hexPair (by omega)]
    rfl
  · cases h

/-- What is written for an escaped character is a backslash and what is read as the
character. -/
theorem escape_escaped {c : Char} {e : String} (h : escape? c = some e) :
    ∃ t, Utf8.encode e = 92 :: t ∧
      ∀ rest, escape (t ++ rest) = .ok (String.utf8EncodeChar c, rest) := by
  rcases escape?_cases h with ⟨b, hb, hescape⟩ | ⟨hc, hcode⟩
  · exact ⟨[b], hb, hescape⟩
  · refine ⟨_, hcode, fun rest => ?_⟩
    have htrail : isTrailingSurrogate c.toNat = false := by
      simp [isTrailingSurrogate]
      omega
    have hlead : isLeadingSurrogate c.toNat = false := by
      simp [isLeadingSurrogate]
      omega
    show unicodeEscape (48 :: 48 :: hexByte (c.toNat / 16) :: hexByte (c.toNat % 16) :: rest) = _
    rw [unicodeEscape, hexEscape_hexByte (by omega)]
    show (if isTrailingSurrogate c.toNat = true then _ else _) = _
    rw [htrail, hlead]
    show Except.ok (charBytes c.toNat, rest) = _
    rw [charBytes, Char.ofNat_toNat]

/-! ## Characters as they are -/

/-- A byte that stands for itself inside a string. -/
def IsPlain (b : UInt8) : Prop := 32 ≤ b ∧ b ≠ 34 ∧ b ≠ 92

theorem isPlain_of_le {b : UInt8} (h : 128 ≤ b) : IsPlain b := by
  refine ⟨UInt8.le_trans (by decide) h, ?_, ?_⟩
  · rintro rfl
    exact absurd h (by decide)
  · rintro rfl
    exact absurd h (by decide)

/-- A character without an escape is none of those that need one. -/
theorem not_special_of_escape?_eq_none {c : Char} (h : escape? c = none) :
    c ≠ '"' ∧ c ≠ '\\' ∧ 32 ≤ c.toNat := by
  unfold escape? at h
  split at h
  · cases h
  next hquote =>
    split at h
    · cases h
    next hslash =>
      refine ⟨hquote, hslash, ?_⟩
      by_cases hcontrol : c.toNat < 32
      · rw [if_pos hcontrol] at h
        repeat' split at h
        all_goals cases h
      · omega

theorem isPlain_of_escape?_eq_none {c : Char} (h : escape? c = none) :
    ∀ b ∈ String.utf8EncodeChar c, IsPlain b := by
  intro b hb
  by_cases hc : 128 ≤ c.toNat
  · exact isPlain_of_le (Utf8.le_of_mem_encodeChar hc hb)
  · have hlt : c.toNat < 128 := by omega
    rw [Utf8.encodeChar_of_lt hlt, List.mem_singleton] at hb
    have hval : b.toNat = c.toNat := by
      rw [hb, UInt8.toNat_ofNat']
      exact Nat.mod_eq_of_lt (by omega)
    have ne_of_char {d : Char} (hd : c ≠ d) : b.toNat ≠ d.toNat := by
      rw [hval]
      exact fun heq => hd (Char.toNat_inj.mp heq)
    obtain ⟨hquote, hslash, hcontrol⟩ := not_special_of_escape?_eq_none h
    refine ⟨?_, fun heq => ?_, fun heq => ?_⟩
    · rw [UInt8.le_iff_toNat_le, hval]
      exact hcontrol
    · exact ne_of_char hquote (by rw [heq]; rfl)
    · exact ne_of_char hslash (by rw [heq]; rfl)

theorem stringBytesFrom_plain {bytes : Bytes} (h : ∀ b ∈ bytes, IsPlain b) {fuel : Nat}
    {s more rest : Bytes} (hs : stringBytesFrom fuel s = .ok (more, rest)) :
    stringBytesFrom (bytes.length + fuel) (bytes ++ s) = .ok (bytes ++ more, rest) := by
  induction bytes with
  | nil =>
    rw [List.length_nil, Nat.zero_add]
    exact hs
  | cons b bytes ih =>
    rw [List.forall_mem_cons] at h
    obtain ⟨⟨hcontrol, hquote, hslash⟩, hbytes⟩ := h
    have hnot : ¬ b < 32 := UInt8.not_lt.mpr hcontrol
    rw [List.length_cons, Nat.add_right_comm, List.cons_append, stringBytesFrom, if_neg hquote,
      if_neg hslash, if_neg hnot, ih hbytes]
    rfl

/-! ## Strings -/

theorem stringBytesFrom_escaped (cs : List Char) (rest : Bytes) {fuel : Nat}
    (hfuel : (cs.flatMap escaped).length < fuel) :
    stringBytesFrom fuel (cs.flatMap escaped ++ 34 :: rest) =
      .ok (cs.flatMap String.utf8EncodeChar, rest) := by
  induction cs generalizing fuel with
  | nil =>
    obtain ⟨fuel, rfl⟩ := Nat.exists_eq_add_one_of_ne_zero (Nat.ne_zero_of_lt hfuel)
    rfl
  | cons c cs ih =>
    rw [List.flatMap_cons, List.length_append] at hfuel
    rw [List.flatMap_cons, List.append_assoc, List.flatMap_cons]
    cases he : escape? c with
    | some e =>
      obtain ⟨t, ht, hescape⟩ := escape_escaped he
      have hc : escaped c = 92 :: t := by rw [escaped, he, ← ht]
      obtain ⟨fuel, rfl⟩ := Nat.exists_eq_add_one_of_ne_zero (Nat.ne_zero_of_lt hfuel)
      rw [hc, List.length_cons] at hfuel
      rw [hc, List.cons_append, stringBytesFrom, if_neg (by decide), if_pos rfl, hescape]
      show (stringBytesFrom fuel (cs.flatMap escaped ++ 34 :: rest) >>= _) = _
      rw [ih (by omega)]
      rfl
    | none =>
      have hc : escaped c = String.utf8EncodeChar c := by rw [escaped, he]
      rw [hc] at hfuel ⊢
      obtain ⟨fuel, rfl⟩ := Nat.exists_eq_add_of_le
        (Nat.le_trans (Nat.le_add_right _ _) (Nat.le_of_lt hfuel))
      exact stringBytesFrom_plain (isPlain_of_escape?_eq_none he) (ih (by omega))

/-- A string is read back from its bytes. -/
theorem string_unopened (s : String) (rest : Bytes) :
    string (Writer.unopened s ++ rest) = .ok (s, rest) := by
  have hbytes : stringBytes (Writer.unopened s ++ rest) =
      .ok (s.toList.flatMap String.utf8EncodeChar, rest) := by
    rw [stringBytes, Writer.unopened, List.append_assoc, List.singleton_append]
    refine stringBytesFrom_escaped s.toList rest ?_
    rw [List.length_append, List.length_cons]
    omega
  have htext : Utf8.decode? (s.toList.flatMap String.utf8EncodeChar) = some s :=
    Utf8.decode?_eq_some_iff.mpr (Utf8.encode_eq_flatMap s)
  rw [string, hbytes]
  show (match Utf8.decode? (s.toList.flatMap String.utf8EncodeChar) with
    | some text => Except.ok (text, rest)
    | none => _) = _
  rw [htext]

end Json.Reader

end Untagged
