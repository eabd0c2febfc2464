import Untagged.Text.Utf8

/-!
# Texts as bytes

Decoding inverts encoding, and the bytes that decode are the bytes of texts
(`IsText`).  The encoding of a character has one first byte, at its front, so an
encoded character inside a text stands on its own: what lies before it and behind
it is text as well (`IsText.around_char`).
-/

namespace Untagged.Utf8

/-! ## Encoding and decoding -/

theorem encode_eq_flatMap (s : String) : encode s = s.toList.flatMap String.utf8EncodeChar := by
  rw [encode, ← String.utf8Encode_toList, List.utf8Encode, List.toList_data_toByteArray]

theorem encode_ofList (cs : List Char) :
    encode (String.ofList cs) = cs.flatMap String.utf8EncodeChar := by
  rw [encode_eq_flatMap, String.toList_ofList]

theorem encode_append (s t : String) : encode (s ++ t) = encode s ++ encode t := by
  rw [encode_eq_flatMap, encode_eq_flatMap, encode_eq_flatMap, String.toList_append,
    List.flatMap_append]

theorem encode_join (pieces : List String) :
    encode (String.join pieces) = pieces.flatMap encode := by
  induction pieces with
  | nil => rfl
  | cons p ps ih => rw [String.join_cons, encode_append, ih, List.flatMap_cons]

theorem mk_encode (s : String) : (⟨(encode s).toArray⟩ : ByteArray) = s.toByteArray := by
  rw [encode]

theorem decode?_encode (s : String) : decode? (encode s) = some s := by
  rw [decode?, mk_encode, String.fromUTF8?, dif_pos s.isValidUTF8]
  rfl

theorem decode?_eq_some_iff {bytes : List UInt8} {s : String} :
    decode? bytes = some s ↔ encode s = bytes := by
  refine ⟨fun h => ?_, fun h => h ▸ decode?_encode s⟩
  rw [decode?, String.fromUTF8?] at h
  split at h
  · rw [← Option.some.inj h]
    rfl
  · cases h

/-! ## Bytes that are text -/

/-- The bytes of some text. -/
def IsText (bytes : List UInt8) : Prop := ∃ s, encode s = bytes

theorem isText_iff_chars {bytes : List UInt8} :
    IsText bytes ↔ ∃ cs : List Char, cs.flatMap String.utf8EncodeChar = bytes := by
  refine ⟨fun ⟨s, hs⟩ => ⟨s.toList, ?_⟩, fun ⟨cs, hcs⟩ => ⟨String.ofList cs, ?_⟩⟩
  · rw [← hs, encode_eq_flatMap]
  · rw [encode_ofList, hcs]

theorem isText_nil : IsText [] := ⟨"", rfl⟩

theorem isText_char (c : Char) : IsText (String.utf8EncodeChar c) :=
  isText_iff_chars.mpr ⟨[c], by simp⟩

theorem IsText.append {a b : List UInt8} (ha : IsText a) (hb : IsText b) : IsText (a ++ b) := by
  obtain ⟨s, rfl⟩ := ha
  obtain ⟨t, rfl⟩ := hb
  exact ⟨s ++ t, encode_append s t⟩

theorem encodeChar_of_lt {c : Char} (h : c.toNat < 128) :
    String.utf8EncodeChar c = [UInt8.ofNat c.toNat] := by
  have hle : c.val.toNat ≤ 127 := Nat.le_of_lt_succ h
  rw [String.utf8EncodeChar]
  exact if_pos hle

/-- Beyond ASCII every byte of a character has its high bit set. -/
theorem le_of_mem_encodeChar {c : Char} (h : 128 ≤ c.toNat) {b : UInt8}
    (hb : b ∈ String.utf8EncodeChar c) : 128 ≤ b := by
  have hc : c.val.toNat = c.toNat := rfl
  have high (k m : Nat) (hk : k < 128) (hm : m = k + 128) : 128 ≤ UInt8.ofNat m := by
    rw [UInt8.le_iff_toNat_le, UInt8.toNat_ofNat']
    show 128 ≤ m % 256
    omega
  simp only [String.utf8EncodeChar, hc, if_neg (show ¬ c.toNat ≤ 127 by omega)] at hb
  split at hb
  · simp only [List.mem_cons, List.not_mem_nil, or_false] at hb
    rcases hb with rfl | rfl
    · exact high (c.toNat / 64 % 32 + 64) _ (by omega) (by omega)
    · exact high (c.toNat % 64) _ (by omega) (by omega)
  · split at hb
    · simp only [List.mem_cons, List.not_mem_nil, or_false] at hb
      rcases hb with rfl | rfl | rfl
      · exact high (c.toNat / 4096 % 16 + 96) _ (by omega) (by omega)
      · exact high (c.toNat / 64 % 64) _ (by omega) (by omega)
      · exact high (c.toNat % 64) _ (by omega) (by omega)
    · simp only [List.mem_cons, List.not_mem_nil, or_false] at hb
      rcases hb with rfl | rfl | rfl | rfl
      · exact high (c.toNat / 262144 % 8 + 112) _ (by omega) (by omega)
      · exact high (c.toNat / 4096 % 64) _ (by omega) (by omega)
      · exact high (c.toNat / 64 % 64) _ (by omega) (by omega)
      · exact high (c.toNat % 64) _ (by omega) (by omega)

theorem encodeChar_ofNat {b : UInt8} (h : b < 128) :
    String.utf8EncodeChar (Char.ofNat b.toNat) = [b] := by
  have hb : b.toNat < 128 := UInt8.lt_iff_toNat_lt.mp h
  have hc : (Char.ofNat b.toNat).toNat = b.toNat := by
    rw [Char.ofNat, dif_pos (Or.inl (by omega))]
    rfl
  rw [encodeChar_of_lt (by omega), hc, UInt8.ofNat_toNat]

theorem isText_singleton {b : UInt8} (h : b < 128) : IsText [b] :=
  encodeChar_ofNat h ▸ isText_char _

/-! ## A character inside a text -/

/-- The first byte of a character, and those that follow it. -/
theorem encodeChar_eq_cons (c : Char) :
    ∃ b bs, String.utf8EncodeChar c = b :: bs ∧ b.IsUTF8FirstByte ∧
      ∀ x ∈ bs, ¬ x.IsUTF8FirstByte := by
  cases he : String.utf8EncodeChar c with
  | nil => exact absurd he String.utf8EncodeChar_ne_nil
  | cons b bs =>
    have hfirst : ∀ (i : Nat) (hi : i < (b :: bs).length),
        (b :: bs)[i].IsUTF8FirstByte ↔ i = 0 := by
      intro i hi
      simp only [← he]
      exact UInt8.isUTF8FirstByte_getElem_utf8EncodeChar
    refine ⟨b, bs, rfl, (hfirst 0 (Nat.succ_pos _)).mpr rfl, fun x hx hx1 => ?_⟩
    obtain ⟨i, hi, rfl⟩ := List.mem_iff_getElem.mp hx
    have hlast := (hfirst (i + 1) (by simpa using hi)).mp hx1
    omega

/-- No character's bytes begin another's. -/
theorem encodeChar_append_inj {c d : Char} {a b : List UInt8}
    (h : String.utf8EncodeChar c ++ a = String.utf8EncodeChar d ++ b) : c = d ∧ a = b := by
  have hdecode : some c = some d := by
    rw [← ByteArray.utf8DecodeChar?_utf8EncodeChar_append (b := a.toByteArray) (c := c),
      ← ByteArray.utf8DecodeChar?_utf8EncodeChar_append (b := b.toByteArray) (c := d),
      ← List.toByteArray_append, ← List.toByteArray_append, h]
  obtain rfl := Option.some.inj hdecode
  exact ⟨rfl, List.append_cancel_left h⟩

theorem IsText.of_char_append {c : Char} {bytes : List UInt8}
    (h : IsText (String.utf8EncodeChar c ++ bytes)) : IsText bytes := by
  obtain ⟨cs, hcs⟩ := isText_iff_chars.mp h
  cases cs with
  | nil => exact absurd (List.append_eq_nil_iff.mp hcs.symm).1 String.utf8EncodeChar_ne_nil
  | cons d ds =>
    rw [List.flatMap_cons] at hcs
    exact isText_iff_chars.mpr ⟨ds, (encodeChar_append_inj hcs).2⟩

/-- What stands around a whole character of a text is text. -/
theorem IsText.around_char {before bytes : List UInt8} {c : Char}
    (h : IsText (before ++ (String.utf8EncodeChar c ++ bytes))) :
    IsText before ∧ IsText bytes := by
  obtain ⟨cs, hcs⟩ := isText_iff_chars.mp h
  -- On the characters of the text: each lies in `before` as a whole, for if its
  -- bytes reached over the border, the first byte of `c` would be a later one of it.
  induction cs generalizing before with
  | nil =>
    rw [List.flatMap_nil, eq_comm, List.append_eq_nil_iff, List.append_eq_nil_iff] at hcs
    exact absurd hcs.2.1 String.utf8EncodeChar_ne_nil
  | cons d ds ih =>
    rw [List.flatMap_cons] at hcs
    rcases List.append_eq_append_iff.mp hcs with ⟨t, hbefore, hds⟩ | ⟨t, hd, hrest⟩
    · have htext : IsText (t ++ (String.utf8EncodeChar c ++ bytes)) :=
        isText_iff_chars.mpr ⟨ds, hds⟩
      obtain ⟨ht, hbytes⟩ := ih htext hds
      exact ⟨hbefore ▸ (isText_char d).append ht, hbytes⟩
    · cases t with
      | nil =>
        rw [List.append_nil] at hd
        rw [List.nil_append] at hrest
        have hbytes : IsText (String.utf8EncodeChar c ++ bytes) :=
          isText_iff_chars.mpr ⟨ds, hrest.symm⟩
        exact ⟨hd ▸ isText_char d, hbytes.of_char_append⟩
      | cons x t =>
        obtain ⟨b, bs, hc, hb, -⟩ := encodeChar_eq_cons c
        rw [hc, List.cons_append, List.cons_append, List.cons.injEq] at hrest
        cases before with
        | nil => exact ⟨isText_nil, IsText.of_char_append (by simpa using h)⟩
        | cons y before =>
          obtain ⟨f, fs, hdc, -, hfs⟩ := encodeChar_eq_cons d
          rw [hdc, List.cons_append, List.cons.injEq] at hd
          exact absurd (hrest.1 ▸ hb) (hfs x (by rw [hd.2]; simp))

end Untagged.Utf8
