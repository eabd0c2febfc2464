import Untagged.Proofs.Json.Prefix

/-!
# The items of an array, one after the other

`Listed item xs s rest` says that the items `xs` are read from `s`, with commas
between them, and that `rest` is left behind the last one.  What is left may be
anything: an array is a list of items with its closing bracket behind it
(`sequence_eq_ok_iff`), and where the text goes wrong the items before that place
are still listed (`Listed.reads`).  A document that is cut behind an item lists the
items up to there (`listed_of_bracketed`).
-/

namespace Untagged.Json.Reader

variable {α : Type} {item : Bytes → Except Fault (Read α)}

/-- The items that are read from `s`, up to `rest` behind the last one. -/
inductive Listed (item : Bytes → Except Fault (Read α)) : List α → Bytes → Bytes → Prop
  | last {x : α} {s rest : Bytes} (h : item s = .ok (x, rest)) : Listed item [x] s rest
  | more {x : α} {xs : List α} {s t u r rest : Bytes} {c : UInt8} (h : item s = .ok (x, t))
    (hcomma : skipBlanks t = 44 :: u) (hnext : skipBlanks u = c :: r) (hc : c ≠ 93)
    (hxs : Listed item xs (c :: r) rest) : Listed item (x :: xs) s rest

/-! ## Lengths -/

theorem Passes.length_le {s rest : Bytes} (h : Passes s rest) : rest.length ≤ s.length := by
  obtain ⟨p, rfl, -⟩ := h
  rw [List.length_append]
  omega

theorem length_le_of_skipBlanks {s r : Bytes} {b : UInt8} (h : skipBlanks s = b :: r) :
    r.length + 1 ≤ s.length :=
  (passes_of_skipBlanks_eq h).length_le

theorem value_length_le {levels : Nat} :
    ∀ s v rest, value levels s = .ok (v, rest) → rest.length ≤ s.length :=
  fun _ _ _ h => (value_passes h).length_le

/-- Fewer bytes are left for the items behind the first one. -/
theorem length_of_more {levels : Nat} {v : Json} {s t w r : Bytes} {c : UInt8}
    (hv : value levels s = .ok (v, t)) (hcomma : skipBlanks t = 44 :: w)
    (hnext : skipBlanks w = c :: r) : (c :: r).length + 1 ≤ s.length := by
  have hle := value_length_le _ _ _ hv
  have hcomma := length_le_of_skipBlanks hcomma
  have hnext := length_le_of_skipBlanks hnext
  rw [List.length_cons]
  omega

/-! ## Arrays -/

theorem listed_of_itemsAfter {fuel : Nat} {s rest : Bytes} {xs : List α}
    (h : itemsAfter item fuel s = .ok (xs, rest)) :
    (xs = [] ∧ skipBlanks s = 93 :: rest) ∨
      ∃ u c r t, skipBlanks s = 44 :: u ∧ skipBlanks u = c :: r ∧ c ≠ 93 ∧
        Listed item xs (c :: r) t ∧ skipBlanks t = 93 :: rest := by
  induction fuel generalizing s xs with
  | zero => cases h
  | succ fuel ih =>
    rw [itemsAfter] at h
    cases hs : skipBlanks s with
    | nil =>
      rw [hs] at h
      cases h
    | cons b u =>
      rw [hs] at h
      by_cases hend : b = 93
      · simp only [if_pos hend] at h
        cases h
        exact .inl ⟨rfl, by rw [hend]⟩
      simp only [if_neg hend] at h
      by_cases hcomma : b = 44
      · simp only [if_pos hcomma] at h
        cases hu : skipBlanks u with
        | nil =>
          rw [hu] at h
          cases h
        | cons c r =>
          rw [hu] at h
          by_cases hc : c = 93
          · simp only [if_pos hc] at h
            cases h
          simp only [if_neg hc, bind_eq_ok] at h
          obtain ⟨⟨x, t⟩, hx, ⟨ys, t'⟩, hys, h⟩ := h
          cases h
          refine .inr ⟨u, c, r, ?_⟩
          obtain ⟨rfl, ht⟩ | ⟨u', c', r', t', hcomma', hnext', hc', hlisted, ht'⟩ := ih hys
          · exact ⟨t, by rw [hcomma], hu, hc, .last hx, ht⟩
          · exact ⟨t', by rw [hcomma], hu, hc, .more hx hcomma' hnext' hc' hlisted, ht'⟩
      · simp only [if_neg hcomma] at h
        cases h

/-- Behind the first of the items that are listed, the others are read up to the
bracket. -/
theorem Listed.itemsAfter (hitem : ∀ s x rest, item s = .ok (x, rest) → rest.length ≤ s.length)
    {xs : List α} {s t rest : Bytes} (h : Listed item xs s t) (ht : skipBlanks t = 93 :: rest) :
    ∃ x ys u, xs = x :: ys ∧ item s = .ok (x, u) ∧
      ∀ fuel, u.length ≤ fuel → Reader.itemsAfter item fuel u = .ok (ys, rest) := by
  induction h with
  | @last x s t hx =>
    refine ⟨x, [], t, rfl, hx, fun fuel hfuel => ?_⟩
    have hlength := length_le_of_skipBlanks ht
    obtain ⟨k, rfl⟩ : ∃ k, fuel = k + 1 := ⟨fuel - 1, by omega⟩
    rw [Reader.itemsAfter, ht]
    rfl
  | @more x xs s u v r t c hx hcomma hnext hc _ ih =>
    obtain ⟨y, ys, w, rfl, hy, hys⟩ := ih ht
    refine ⟨x, y :: ys, u, rfl, hx, fun fuel hfuel => ?_⟩
    have hlength := length_le_of_skipBlanks hcomma
    have hlength' := length_le_of_skipBlanks hnext
    have hlength'' := hitem _ _ _ hy
    rw [List.length_cons] at hlength''
    obtain ⟨k, rfl⟩ : ∃ k, fuel = k + 1 := ⟨fuel - 1, by omega⟩
    rw [Reader.itemsAfter, hcomma]
    simp only [if_neg (show (44 : UInt8) ≠ 93 by decide), if_true, hnext, if_neg hc, bind_eq_ok]
    exact ⟨_, hy, _, hys k (by omega), rfl⟩

theorem sequence_eq_ok_iff
    (hitem : ∀ s x rest, item s = .ok (x, rest) → rest.length ≤ s.length)
    {s rest : Bytes} {xs : List α} :
    sequence item s = .ok (xs, rest) ↔
      (xs = [] ∧ skipBlanks s = 93 :: rest) ∨
        ∃ c r t, skipBlanks s = c :: r ∧ c ≠ 93 ∧ Listed item xs (c :: r) t ∧
          skipBlanks t = 93 :: rest := by
  constructor
  · intro h
    rw [sequence] at h
    cases hs : skipBlanks s with
    | nil =>
      rw [hs] at h
      cases h
    | cons c r =>
      rw [hs] at h
      by_cases hc : c = 93
      · simp only [if_pos hc] at h
        cases h
        exact .inl ⟨rfl, by rw [hc]⟩
      simp only [if_neg hc, bind_eq_ok] at h
      obtain ⟨⟨x, t⟩, hx, ⟨ys, t'⟩, hys, h⟩ := h
      cases h
      refine .inr ⟨c, r, ?_⟩
      obtain ⟨rfl, ht⟩ | ⟨u', c', r', t', hcomma', hnext', hc', hlisted, ht'⟩ :=
        listed_of_itemsAfter hys
      · exact ⟨t, rfl, hc, .last hx, ht⟩
      · exact ⟨t', rfl, hc, .more hx hcomma' hnext' hc' hlisted, ht'⟩
  · rintro (⟨rfl, hs⟩ | ⟨c, r, t, hs, hc, hlisted, ht⟩)
    · rw [sequence, hs]
      rfl
    · obtain ⟨x, ys, u, rfl, hx, hys⟩ := hlisted.itemsAfter hitem ht
      rw [sequence, hs]
      simp only [if_neg hc, bind_eq_ok]
      exact ⟨_, hx, _, hys _ (Nat.le_refl _), rfl⟩

/-- An array is what starts with a bracket. -/
theorem value_array_iff {levels : Nat} {s rest : Bytes} {vs : List Json} :
    value (levels + 1) s = .ok (.array vs, rest) ↔
      ∃ r, skipBlanks s = 91 :: r ∧ sequence (value levels) r = .ok (vs, rest) := by
  rw [value, valueOver]
  cases hs : skipBlanks s with
  | nil => simp
  | cons b r =>
    by_cases hb : b = 91
    · subst hb
      show (inContainer (sequence (value levels) r) >>= _) = _ ↔ _
      simp only [bind_eq_ok, inContainer_eq_ok]
      constructor
      · rintro ⟨⟨items, t⟩, hitems, h⟩
        cases h
        exact ⟨r, rfl, hitems⟩
      · rintro ⟨r', hr, hitems⟩
        cases hr
        exact ⟨_, hitems, rfl⟩
    · constructor
      case mpr =>
        rintro ⟨r', hr, -⟩
        exact absurd (List.cons.inj hr).1 hb
      intro h
      -- Whatever else the first byte is, it makes something else.
      simp only [if_neg hb] at h
      iterate 7
        split at h
        · obtain ⟨_, -, h⟩ := bind_eq_ok.mp h
          cases h
      cases h

/-! ## Other text behind the items -/

theorem value_nil (levels : Nat) : value levels [] = .error (.ahead .eofValue []) := by
  cases levels <;> rfl

theorem Listed.ne_nil {levels : Nat} {xs : List Json} {s rest : Bytes}
    (h : Listed (value levels) xs s rest) : s ≠ [] := by
  rintro rfl
  cases h with
  | last hx =>
    rw [value_nil] at hx
    cases hx
  | more hx =>
    rw [value_nil] at hx
    cases hx

/-- As much fuel as there are bytes is enough for the next item. -/
theorem Listed.exists_fuel {levels fuel : Nat} {xs : List Json} {s rest : Bytes}
    (h : Listed (value levels) xs s rest) (hfuel : s.length ≤ fuel) : ∃ k, fuel = k + 1 := by
  have hpos : 0 < s.length := List.length_pos_iff.mpr h.ne_nil
  exact ⟨fuel - 1, by omega⟩

/-- The items are listed in the bytes before `rest`, whatever stands behind these
bytes and may follow the last item. -/
theorem Listed.reads {levels : Nat} {vs : List Json} {v : Json} {s rest : Bytes}
    (h : Listed (value levels) (vs ++ [v]) s rest) :
    ∃ p, p ≠ [] ∧ s = p ++ rest ∧ ∀ rest', Follows v rest' →
      Listed (value levels) (vs ++ [v]) (p ++ rest') rest' := by
  induction vs generalizing s with
  | nil =>
    cases h with
    | last hx =>
      obtain ⟨p, rfl, hread⟩ := value_reads hx
      have hne : p ≠ [] := by
        rintro rfl
        have hnil := hread [] fun _ => trivial
        rw [List.nil_append, value_nil] at hnil
        cases hnil
      exact ⟨p, hne, rfl, fun rest' hrest' => .last (hread rest' hrest')⟩
    | more _ _ _ _ hxs => cases hxs
  | cons w ws ih =>
    rw [List.cons_append] at h
    generalize hvs : ws ++ [v] = xs at h
    cases h with
    | last => simp at hvs
    | @more _ _ _ t u r _ c hx hcomma hnext hc hxs =>
      subst hvs
      obtain ⟨p, rfl, hread⟩ := value_reads hx
      obtain ⟨blanks, hblanks, rfl, hskip⟩ := exists_blanks_of_skipBlanks hcomma
      obtain ⟨blanks', -, rfl, hskip'⟩ := exists_blanks_of_skipBlanks hnext
      obtain ⟨q, hne, hq, hlisted⟩ := ih hxs
      obtain ⟨q, rfl, rfl⟩ := exists_cons_of_append hne hq
      refine ⟨p ++ (blanks ++ 44 :: (blanks' ++ c :: q)), by simp, by simp, ?_⟩
      intro rest' hrest'
      simp only [List.append_assoc, List.cons_append]
      have hstops : Follows w (blanks ++ 44 :: (blanks' ++ c :: (q ++ rest'))) :=
        fun _ => stops_blanks_cons hblanks (.inl rfl) _
      exact .more (hread _ hstops) (hskip _) (hskip' _) hc (hlisted rest' hrest')

/-! ## Behind a number -/

theorem Stops.append {blanks s : Bytes} (h : ∀ b ∈ blanks, isBlank b = true) (hs : Stops s) :
    Stops (blanks ++ s) := by
  cases blanks with
  | nil => exact hs
  | cons b blanks =>
    have hblank : Delimited (b :: (blanks ++ s)) := .inl (h b (.head _))
    exact hblank.stops

theorem stops_cons_of_le {b : UInt8} (h : 128 ≤ b) (s : Bytes) : Stops (b :: s) := by
  have hlarge : 128 ≤ b.toNat := UInt8.le_iff_toNat_le.mp h
  have hne {k : UInt8} (hk : k.toNat < 128) : b ≠ k := by
    rintro rfl
    omega
  refine ⟨?_, hne (by decide), ?_⟩
  · rw [isDigit, Bool.and_eq_false_iff, decide_eq_false_iff_not,
      decide_eq_false_iff_not, UInt8.le_iff_toNat_le, UInt8.le_iff_toNat_le]
    right
    show ¬ b.toNat ≤ 57
    omega
  · simp only [isExponentMark, Bool.or_eq_false_iff, decide_eq_false_iff_not]
    exact ⟨hne (by decide), hne (by decide)⟩

/-- A character that does not continue a number starts with a byte that does not. -/
theorem stops_encode {s : String}
    (h : ∀ c ∈ s.toList.head?, ¬ (c.isDigit = true ∨ c = '.' ∨ c = 'e' ∨ c = 'E')) :
    Stops (Utf8.encode s) := by
  rw [Utf8.encode_eq_flatMap]
  cases hs : s.toList with
  | nil => trivial
  | cons c cs =>
    rw [hs] at h
    have hc := h c rfl
    simp only [not_or] at hc
    rw [List.flatMap_cons]
    by_cases hascii : c.toNat < 128
    · have htoNat : (UInt8.ofNat c.toNat).toNat = c.toNat := by
        rw [UInt8.toNat_ofNat']
        exact Nat.mod_eq_of_lt (by omega)
      have hne {d : Char} (hd : c ≠ d) {k : UInt8} (hk : k.toNat = d.toNat) :
          UInt8.ofNat c.toNat ≠ k := by
        intro heq
        rw [heq, hk] at htoNat
        exact hd (Char.toNat_inj.mp htoNat.symm)
      rw [Utf8.encodeChar_of_lt hascii]
      refine ⟨?_, hne hc.2.1 rfl, ?_⟩
      · -- The digits are the same characters and bytes.
        rw [Bool.eq_false_iff]
        intro hdigit
        simp only [isDigit, Bool.and_eq_true, decide_eq_true_eq,
          UInt8.le_iff_toNat_le, htoNat] at hdigit
        refine hc.1 ?_
        simp only [Char.isDigit, ge_iff_le, Bool.and_eq_true, decide_eq_true_eq,
          UInt32.le_iff_toNat_le]
        exact hdigit
      · simp only [isExponentMark, Bool.or_eq_false_iff, decide_eq_false_iff_not]
        exact ⟨hne hc.2.2.1 rfl, hne hc.2.2.2 rfl⟩
    · obtain ⟨b, bs, hb, -⟩ := Utf8.encodeChar_eq_cons c
      have hlarge : 128 ≤ b :=
        Utf8.le_of_mem_encodeChar (c := c) (by omega) (by rw [hb]; exact .head _)
      rw [hb]
      exact stops_cons_of_le hlarge _

/-! ## Documents -/

theorem finish_eq_ok_iff {x y : α} {s : Bytes} :
    finish x s = .ok y ↔ x = y ∧ skipBlanks s = [] := by
  rw [finish]
  cases skipBlanks s with
  | nil => simp
  | cons b r => simp

theorem ofText_eq_ok_iff {text : String} {v : Json} :
    Json.ofText text = .ok v ↔
      ∃ rest, value maxDepth (Utf8.encode text) = .ok (v, rest) ∧ skipBlanks rest = [] := by
  have hdocument : Json.ofText text = .ok v ↔ Reader.document (Utf8.encode text) = .ok v := by
    rw [Json.ofText]
    cases Reader.document (Utf8.encode text) with
    | ok w =>
      show Except.ok w = .ok v ↔ _
      rw [Except.ok.injEq, Except.ok.injEq]
    | error f =>
      show Except.error (f.inText _) = .ok v ↔ _
      simp
  rw [hdocument, Reader.document, Reader.documentWithin, bind_eq_ok]
  constructor
  · rintro ⟨⟨w, rest⟩, hw, hfinish⟩
    obtain ⟨rfl, hrest⟩ := finish_eq_ok_iff.mp hfinish
    exact ⟨rest, hw, hrest⟩
  · rintro ⟨rest, hv, hrest⟩
    exact ⟨(v, rest), hv, finish_eq_ok_iff.mpr ⟨rfl, hrest⟩⟩

theorem isBlank_of_skipBlanks {s : Bytes} (h : skipBlanks s = []) : ∀ b ∈ s, isBlank b = true := by
  induction s with
  | nil => exact nofun
  | cons b s ih =>
    rw [skipBlanks] at h
    by_cases hb : isBlank b = true
    · rw [if_pos hb] at h
      rw [List.forall_mem_cons]
      exact ⟨hb, ih h⟩
    · rw [if_neg hb] at h
      cases h

/-- A bracket with nothing but white space behind it, in bytes that end with a
bracket, is the last byte. -/
theorem eq_of_append_bracket {s p rest : Bytes} (h : s ++ [93] = p ++ 93 :: rest)
    (hrest : skipBlanks rest = []) : s = p := by
  rcases List.eq_nil_or_concat rest with rfl | ⟨init, b, rfl⟩
  · exact List.append_cancel_right h
  · have hlast : s ++ [93] = (p ++ 93 :: init) ++ [b] := by simpa using h
    have hb := (List.append_inj' hlast rfl).2
    have hblank := isBlank_of_skipBlanks hrest b (by simp)
    cases hb
    cases hblank

/-- Where a bracket behind the text makes an array of it, the items of the array are
listed in the text, whatever stands behind it and may follow the last one. -/
theorem listed_of_bracketed {q tail : String} {vs : List Json} {v : Json}
    (hq : Json.ofText (q ++ "]") = .ok (.array (vs ++ [v])))
    (htail : Follows v (Utf8.encode tail)) :
    ∃ r c r' t, skipBlanks (Utf8.encode (q ++ tail)) = 91 :: r ∧ skipBlanks r = c :: r' ∧
      c ≠ 93 ∧ Listed (value (maxDepth - 1)) (vs ++ [v]) (c :: r') t := by
  obtain ⟨rest, hread, hblank⟩ := ofText_eq_ok_iff.mp hq
  obtain ⟨r, hopen, hsequence⟩ := value_array_iff.mp hread
  obtain ⟨hnil, -⟩ | ⟨c, r', t, hfirst, hc, hlisted, hend⟩ :=
    (sequence_eq_ok_iff value_length_le).mp hsequence
  · simp at hnil
  obtain ⟨blanks, -, hbytes, hskip⟩ := exists_blanks_of_skipBlanks hopen
  obtain ⟨blanks', -, rfl, hskip'⟩ := exists_blanks_of_skipBlanks hfirst
  obtain ⟨blanks'', hblanks, rfl, -⟩ := exists_blanks_of_skipBlanks hend
  obtain ⟨p, hne, hp, hlists⟩ := hlisted.reads
  obtain ⟨p, rfl, rfl⟩ := exists_cons_of_append hne hp
  have hencoded : Utf8.encode q = blanks ++ 91 :: (blanks' ++ c :: (p ++ blanks'')) := by
    have hbracket : Utf8.encode "]" = [93] := by decide +kernel
    rw [Utf8.encode_append, hbracket] at hbytes
    exact eq_of_append_bracket (hbytes.trans (by simp)) hblank
  have hfollows : Follows v (blanks'' ++ Utf8.encode tail) :=
    fun hnumber => (htail hnumber).append hblanks
  have hbytes' : Utf8.encode (q ++ tail) =
      blanks ++ 91 :: (blanks' ++ c :: (p ++ (blanks'' ++ Utf8.encode tail))) := by
    rw [Utf8.encode_append, hencoded]
    simp
  have hlisted' := hlists _ hfollows
  rw [List.cons_append] at hlisted'
  refine ⟨_, c, _, _, ?_, hskip' _, hc, hlisted'⟩
  rw [hbytes', hskip]

end Untagged.Json.Reader
