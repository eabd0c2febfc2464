import Untagged.Proofs.Json.Integers
import Untagged.Proofs.Json.Spelling

/-!
# What is written is read back

Reading skips the white space of a layout, so that a datum is read back is proved
once, for its spelling under any layout (`spell_readAs`).

A datum is legible when its containers are not too many levels deep, the names in
each of its records are distinct, and the text of each of its floats is read as some
known value, most often as the float.  The statements this file exists for are
`ofText_compactText` and `ofText_prettyText`: the text of a legible datum is read as its
JSON value.
-/

namespace Untagged

/-! ## Names -/

namespace Json

theorem insertMember_of_notMem {name : String} {v : Json} {ms : List (String × Json)}
    (h : name ∉ ms.map Prod.fst) : insertMember name v ms = ms ++ [(name, v)] := by
  induction ms with
  | nil => rfl
  | cons m ms ih =>
    obtain ⟨n, w⟩ := m
    rw [List.map_cons, List.mem_cons, not_or] at h
    rw [insertMember, if_neg (Ne.symm h.1), ih h.2, List.cons_append]

/-- Members of distinct names are collected as they are. -/
theorem collect_of_nodup {ms : List (String × Json)} (h : (ms.map Prod.fst).Nodup) :
    collect ms = ms := by
  -- The members collected so far have none of the names that are still to come.
  have go (done : List (String × Json)) (ms : List (String × Json))
      (h : ((done ++ ms).map Prod.fst).Nodup) :
      ms.foldl (fun ms p => insertMember p.1 p.2 ms) done = done ++ ms := by
    induction ms generalizing done with
    | nil => rw [List.foldl_nil, List.append_nil]
    | cons m ms ih =>
      have hnot : m.1 ∉ done.map Prod.fst := by
        rw [List.map_append, List.map_cons] at h
        intro hm
        exact (List.nodup_append.mp h).2.2 _ hm _ (.head _) rfl
      rw [List.foldl_cons, insertMember_of_notMem hnot, ih (done ++ [m]) (by simpa using h)]
      simp
  exact go [] ms h

end Json

namespace Json.Reader

open Writer (spell spellItems spellMembers unopened)

/-! ## White space -/

theorem skipBlanks_append {blanks : Bytes} (h : ∀ b ∈ blanks, isBlank b = true) (s : Bytes) :
    skipBlanks (blanks ++ s) = skipBlanks s := by
  induction blanks with
  | nil => rfl
  | cons b blanks ih =>
    rw [List.forall_mem_cons] at h
    rw [List.cons_append, skipBlanks, if_pos h.1, ih h.2]

theorem skipBlanks_cons {b : UInt8} (h : isBlank b = false) (s : Bytes) :
    skipBlanks (b :: s) = b :: s := by
  rw [skipBlanks, if_neg (by rw [h]; decide)]

theorem value_append {blanks : Bytes} (h : ∀ b ∈ blanks, isBlank b = true) (levels : Nat)
    (s : Bytes) : value levels (blanks ++ s) = value levels s := by
  cases levels with
  | zero => simp only [value, valueOver, skipBlanks_append h]
  | succ levels => simp only [value, valueOver, skipBlanks_append h]

theorem Delimited.append {blanks s : Bytes} (h : ∀ b ∈ blanks, isBlank b = true)
    (hs : Delimited s) : Delimited (blanks ++ s) := by
  cases blanks with
  | nil => exact hs
  | cons b blanks => exact .inl (h b (.head _))

/-! ## Reading one value -/

/-- The bytes begin like a value: neither with white space nor with the end of an
array. -/
def Begins (bytes : Bytes) : Prop := ∃ b r, bytes = b :: r ∧ isBlank b = false ∧ b ≠ 93

/-- Where a value of so many levels may stand, the bytes are read as `v`. -/
structure ReadAs (levels : Nat) (bytes : Bytes) (v : Json) : Prop where
  begins : Begins bytes
  read : ∀ rest, Delimited rest → value levels (bytes ++ rest) = .ok (v, rest)

/-- A value that holds no others is read alike at every level. -/
theorem ReadAs.of_valueOver {bytes : Bytes} {v : Json} (hb : Begins bytes)
    (h : ∀ inner rest, Delimited rest → valueOver inner (bytes ++ rest) = .ok (v, rest))
    (levels : Nat) : ReadAs levels bytes v where
  begins := hb
  read rest hrest := by
    cases levels with
    | zero => exact h none rest hrest
    | succ levels => exact h (some (value levels)) rest hrest

theorem readAs_null (levels : Nat) : ReadAs levels (Utf8.encode "null") .null := by
  have hbytes : Utf8.encode "null" = [110, 117, 108, 108] := by decide +kernel
  rw [hbytes]
  exact .of_valueOver ⟨110, _, rfl, by decide, by decide⟩ (fun _ _ _ => rfl) levels

theorem readAs_boolean (b : Bool) (levels : Nat) :
    ReadAs levels (Utf8.encode (Writer.booleanText b)) (.boolean b) := by
  cases b with
  | true =>
    have hbytes : Utf8.encode (Writer.booleanText true) = [116, 114, 117, 101] := by
      decide +kernel
    rw [hbytes]
    exact .of_valueOver ⟨116, _, rfl, by decide, by decide⟩ (fun _ _ _ => rfl) levels
  | false =>
    have hbytes : Utf8.encode (Writer.booleanText false) = [102, 97, 108, 115, 101] := by
      decide +kernel
    rw [hbytes]
    exact .of_valueOver ⟨102, _, rfl, by decide, by decide⟩ (fun _ _ _ => rfl) levels

theorem readAs_integer (i : Integer) (levels : Nat) :
    ReadAs levels (Utf8.encode (toString i.val)) (.number (.integer i)) := by
  have hbegins : Begins (Utf8.encode (toString i.val)) := by
    obtain ⟨b, r, hbytes, rfl | hdigit⟩ := encode_integer_eq_cons i.val
    · exact ⟨45, r, hbytes, by decide, by decide⟩
    · exact ⟨b, r, hbytes, not_isBlank_of_isDigit hdigit, ne_of_isDigit hdigit (by decide)⟩
  exact .of_valueOver hbegins (fun inner _ hrest => valueOver_integer inner i hrest) levels

theorem readAs_string (s : String) (levels : Nat) :
    ReadAs levels (34 :: unopened s) (.string s) := by
  refine .of_valueOver ⟨34, _, rfl, by decide, by decide⟩ (fun inner rest _ => ?_) levels
  show (string (unopened s ++ rest) >>= fun t => .ok (Json.string t.1, t.2)) = _
  rw [string_unopened]
  rfl

/-! ## Reading what a container holds -/

section

variable {α : Type} {item : Bytes → Except Fault (Read α)} {blanks bytes rest : Bytes}

theorem itemsAfter_end (hblanks : ∀ b ∈ blanks, isBlank b = true) (fuel : Nat) :
    itemsAfter item (fuel + 1) (blanks ++ 93 :: rest) = .ok ([], rest) := by
  rw [itemsAfter, skipBlanks_append hblanks]
  rfl

theorem itemsAfter_cons {tail : Bytes} {x : α} {xs : List α} {fuel : Nat}
    (hblanks : ∀ b ∈ blanks, isBlank b = true) (hbegins : Begins bytes)
    (hx : item (bytes ++ tail) = .ok (x, tail))
    (hxs : itemsAfter item fuel tail = .ok (xs, rest)) :
    itemsAfter item (fuel + 1) (44 :: (blanks ++ (bytes ++ tail))) = .ok (x :: xs, rest) := by
  obtain ⟨b, r, rfl, hb, hne⟩ := hbegins
  rw [itemsAfter, skipBlanks_cons (by decide)]
  rw [List.cons_append] at hx ⊢
  simp only [if_neg (show (44 : UInt8) ≠ 93 by decide), if_true, skipBlanks_append hblanks,
    skipBlanks_cons hb, if_neg hne, hx]
  show (itemsAfter item fuel tail >>= _) = _
  rw [hxs]
  rfl

theorem sequence_nil : sequence item (93 :: rest) = .ok ([], rest) := rfl

theorem sequence_cons {tail : Bytes} {x : α} {xs : List α}
    (hblanks : ∀ b ∈ blanks, isBlank b = true) (hbegins : Begins bytes)
    (hx : item (bytes ++ tail) = .ok (x, tail))
    (hxs : itemsAfter item tail.length tail = .ok (xs, rest)) :
    sequence item (blanks ++ (bytes ++ tail)) = .ok (x :: xs, rest) := by
  obtain ⟨b, r, rfl, hb, hne⟩ := hbegins
  rw [sequence, skipBlanks_append hblanks]
  rw [List.cons_append] at hx ⊢
  simp only [skipBlanks_cons hb, if_neg hne, hx]
  show (itemsAfter item tail.length tail >>= _) = _
  rw [hxs]
  rfl

theorem member_cons {tail : Bytes} {x : α} (name : String)
    (hx : item (blanks ++ (bytes ++ tail)) = .ok (x, tail)) :
    member item (unopened name ++ (58 :: (blanks ++ (bytes ++ tail)))) =
      .ok ((name, x), tail) := by
  rw [member, string_unopened]
  show (item (blanks ++ (bytes ++ tail)) >>= _) = _
  rw [hx]
  rfl

theorem membersAfter_end (hblanks : ∀ b ∈ blanks, isBlank b = true) (fuel : Nat) :
    membersAfter item (fuel + 1) (blanks ++ 125 :: rest) = .ok ([], rest) := by
  rw [membersAfter, skipBlanks_append hblanks]
  rfl

theorem membersAfter_cons {tail : Bytes} {m : String × α} {ms : List (String × α)}
    {fuel : Nat} (hblanks : ∀ b ∈ blanks, isBlank b = true)
    (hm : member item bytes = .ok (m, tail))
    (hms : membersAfter item fuel tail = .ok (ms, rest)) :
    membersAfter item (fuel + 1) (44 :: (blanks ++ (34 :: bytes))) = .ok (m :: ms, rest) := by
  rw [membersAfter, skipBlanks_cons (by decide)]
  simp only [if_neg (show (44 : UInt8) ≠ 125 by decide), if_true, skipBlanks_append hblanks,
    skipBlanks_cons (show isBlank 34 = false by decide), hm]
  show (membersAfter item fuel tail >>= _) = _
  rw [hms]
  rfl

theorem membership_nil : membership item (125 :: rest) = .ok ([], rest) := rfl

theorem membership_cons {tail : Bytes} {m : String × α} {ms : List (String × α)}
    (hblanks : ∀ b ∈ blanks, isBlank b = true) (hm : member item bytes = .ok (m, tail))
    (hms : membersAfter item tail.length tail = .ok (ms, rest)) :
    membership item (blanks ++ (34 :: bytes)) = .ok (m :: ms, rest) := by
  rw [membership, skipBlanks_append hblanks, skipBlanks_cons (by decide)]
  simp only [if_neg (show (34 : UInt8) ≠ 125 by decide), if_true, hm]
  show (membersAfter item tail.length tail >>= _) = _
  rw [hms]
  rfl

end

/-- The inside of an array makes an array of one level more. -/
theorem readAs_array {levels : Nat} {inside : Bytes} {items : List Json}
    (h : ∀ rest, Delimited rest → sequence (value levels) (inside ++ rest) = .ok (items, rest)) :
    ReadAs (levels + 1) (91 :: inside) (.array items) where
  begins := ⟨91, inside, rfl, by decide, by decide⟩
  read rest hrest := by
    show (inContainer (sequence (value levels) (inside ++ rest)) >>= _) = _
    rw [h rest hrest]
    rfl

/-- The inside of an object makes an object of one level more. -/
theorem readAs_object {levels : Nat} {inside : Bytes} {pairs : List (String × Json)}
    (h : ∀ rest, Delimited rest → membership (value levels) (inside ++ rest) = .ok (pairs, rest)) :
    ReadAs (levels + 1) (123 :: inside) (.object (collect pairs)) where
  begins := ⟨123, inside, rfl, by decide, by decide⟩
  read rest hrest := by
    show (inContainer (membership (value levels) (inside ++ rest)) >>= _) = _
    rw [h rest hrest]
    rfl

end Json.Reader

namespace Datum

open Json.Reader (ReadAs)

section

variable (float : Double → Json)

mutual

/-- The JSON value that a datum is when `float` says what its floats are. -/
def readWith : Datum → Json
  | .null => .null
  | .boolean b => .boolean b
  | .integer i => .number (.integer i)
  | .float x => float x
  | .string s => .string s
  | .sequence items => .array (itemsReadWith items)
  | .record members => .object (membersReadWith members)

def itemsReadWith : List Datum → List Json
  | [] => []
  | d :: ds => readWith d :: itemsReadWith ds

def membersReadWith : List (String × Datum) → List (String × Json)
  | [] => []
  | (name, d) :: ds => (name, readWith d) :: membersReadWith ds

end

mutual

/-- The datum has at most `levels` levels of containers, distinct names in each of
its records, and floats whose text is read as `float` says. -/
def LegibleWith : Nat → Datum → Prop
  | levels, .float x => ReadAs levels (Utf8.encode (Writer.floatText x)) (float x)
  | levels + 1, .sequence items => LegibleItems levels items
  | levels + 1, .record members =>
    (members.map Prod.fst).Nodup ∧ LegibleMembers levels members
  | 0, .sequence _ => False
  | 0, .record _ => False
  | _, _ => True

def LegibleItems : Nat → List Datum → Prop
  | _, [] => True
  | levels, d :: ds => LegibleWith levels d ∧ LegibleItems levels ds

def LegibleMembers : Nat → List (String × Datum) → Prop
  | _, [] => True
  | levels, (_, d) :: ds => LegibleWith levels d ∧ LegibleMembers levels ds

end

theorem map_fst_membersReadWith (ds : List (String × Datum)) :
    (membersReadWith float ds).map Prod.fst = ds.map Prod.fst := by
  induction ds with
  | nil => rfl
  | cons m ds ih =>
    obtain ⟨name, d⟩ := m
    rw [membersReadWith, List.map_cons, List.map_cons, ih]

theorem legibleItems_iff {levels : Nat} {ds : List Datum} :
    LegibleItems float levels ds ↔ ∀ d ∈ ds, d.LegibleWith float levels := by
  induction ds with
  | nil => simp [LegibleItems]
  | cons d ds ih => rw [LegibleItems, List.forall_mem_cons, ih]

end

/-- The datum is legible, and the text of each of its floats is read as the float. -/
def Legible (levels : Nat) (d : Datum) : Prop := d.LegibleWith floatToJson levels

mutual

theorem readWith_floatToJson : (d : Datum) → d.readWith floatToJson = d.toJson
  | .null => rfl
  | .boolean _ => rfl
  | .integer _ => rfl
  | .float _ => rfl
  | .string _ => rfl
  | .sequence ds => by rw [readWith, toJson, itemsReadWith_floatToJson ds]
  | .record ds => by rw [readWith, toJson, membersReadWith_floatToJson ds]

theorem itemsReadWith_floatToJson :
    (ds : List Datum) → itemsReadWith floatToJson ds = itemsToJson ds
  | [] => rfl
  | d :: ds => by
    rw [itemsReadWith, itemsToJson, readWith_floatToJson d, itemsReadWith_floatToJson ds]

theorem membersReadWith_floatToJson :
    (ds : List (String × Datum)) → membersReadWith floatToJson ds = membersToJson ds
  | [] => rfl
  | (_, d) :: ds => by
    rw [membersReadWith, membersToJson, readWith_floatToJson d, membersReadWith_floatToJson ds]

end

theorem itemsToJson_eq_map (ds : List Datum) : itemsToJson ds = ds.map toJson := by
  induction ds with
  | nil => rfl
  | cons d ds ih => rw [itemsToJson, List.map_cons, ih]

end Datum

namespace Json.Reader

open Writer (spell spellItems spellMembers)

variable {float : Double → Json} (L : Layout)

theorem delimited_spellItems (depth k : Nat) (ds : List Datum) (rest : Bytes) :
    Delimited (spellItems L depth ds ++ (L.lead k ++ 93 :: rest)) := by
  cases ds with
  | nil =>
    rw [spellItems, List.nil_append]
    exact Delimited.append (L.lead_blank k) (Or.inr (.inr (.inl rfl)))
  | cons d ds => exact .inr (.inl rfl)

theorem delimited_spellMembers (depth k : Nat) (ds : List (String × Datum)) (rest : Bytes) :
    Delimited (spellMembers L depth ds ++ (L.lead k ++ 125 :: rest)) := by
  cases ds with
  | nil =>
    rw [spellMembers, List.nil_append]
    exact Delimited.append (L.lead_blank k) (Or.inr (.inr (.inr rfl)))
  | cons d ds => exact .inr (.inl rfl)

theorem length_le_spellItems (depth : Nat) (ds : List Datum) :
    ds.length ≤ (spellItems L depth ds).length := by
  induction ds with
  | nil => exact Nat.le_refl 0
  | cons d ds ih =>
    rw [spellItems]
    simp only [List.length_cons, List.length_append]
    omega

theorem length_le_spellMembers (depth : Nat) (ds : List (String × Datum)) :
    ds.length ≤ (spellMembers L depth ds).length := by
  induction ds with
  | nil => exact Nat.le_refl 0
  | cons m ds ih =>
    obtain ⟨name, d⟩ := m
    rw [spellMembers]
    simp only [List.length_cons, List.length_append]
    omega

mutual

/-- Under any layout a legible datum is read as its JSON value. -/
theorem spell_readAs {levels : Nat} (depth : Nat) :
    (d : Datum) → d.LegibleWith float levels →
      ReadAs levels (spell L depth d) (d.readWith float)
  | .null, _ => by
    rw [spell]
    exact readAs_null levels
  | .boolean b, _ => by
    rw [spell]
    exact readAs_boolean b levels
  | .integer i, _ => by
    rw [spell]
    exact readAs_integer i levels
  | .float x, h => by
    rw [spell]
    exact h
  | .string s, _ => by
    rw [spell]
    exact readAs_string s levels
  | .sequence [], h => by
    cases levels with
    | zero => exact h.elim
    | succ levels =>
      rw [spell]
      exact readAs_array fun rest _ => sequence_nil
  | .sequence (d :: ds), h => by
    cases levels with
    | zero => exact h.elim
    | succ levels =>
      obtain ⟨hd, hds⟩ := h
      have hfirst := spell_readAs (depth + 1) d hd
      rw [spell]
      refine readAs_array fun rest hrest => ?_
      simp only [List.append_assoc, List.singleton_append]
      refine sequence_cons (L.lead_blank _) hfirst.begins
        (hfirst.read _ (delimited_spellItems L _ _ ds rest)) ?_
      refine spellItems_read (depth + 1) depth ds hds ?_
      have hlength := length_le_spellItems L (depth + 1) ds
      simp only [List.length_append, List.length_cons]
      omega
  | .record [], h => by
    cases levels with
    | zero => exact h.elim
    | succ levels =>
      have hinside : ∀ rest, Delimited rest →
          membership (value levels) ([125] ++ rest) = .ok ([], rest) :=
        fun rest _ => membership_nil
      rw [spell]
      exact readAs_object hinside
  | .record ((name, d) :: ds), h => by
    cases levels with
    | zero => exact h.elim
    | succ levels =>
      obtain ⟨hnames, hd, hds⟩ := h
      have hfirst := spell_readAs (depth + 1) d hd
      have hcollect : collect (Datum.membersReadWith float ((name, d) :: ds)) =
          Datum.membersReadWith float ((name, d) :: ds) :=
        collect_of_nodup (by rw [Datum.map_fst_membersReadWith]; exact hnames)
      rw [spell, Datum.readWith, ← hcollect]
      refine readAs_object fun rest hrest => ?_
      simp only [List.append_assoc, List.cons_append]
      refine membership_cons (L.lead_blank _) (member_cons name ?_) ?_
      · rw [value_append L.gap_blank]
        exact hfirst.read _ (delimited_spellMembers L _ _ ds rest)
      · refine spellMembers_read (depth + 1) depth ds hds ?_
        have hlength := length_le_spellMembers L (depth + 1) ds
        simp only [List.length_append, List.length_cons]
        omega

theorem spellItems_read {levels : Nat} (depth k : Nat) {rest : Bytes} :
    (ds : List Datum) → Datum.LegibleItems float levels ds → {fuel : Nat} → ds.length < fuel →
      itemsAfter (value levels) fuel (spellItems L depth ds ++ (L.lead k ++ 93 :: rest)) =
        .ok (Datum.itemsReadWith float ds, rest)
  | [], _, fuel + 1, _ => itemsAfter_end (L.lead_blank k) fuel
  | d :: ds, h, fuel + 1, hfuel => by
    obtain ⟨hd, hds⟩ := h
    have hfirst := spell_readAs depth d hd
    rw [spellItems, Datum.itemsReadWith]
    simp only [List.append_assoc, List.cons_append]
    exact itemsAfter_cons (L.lead_blank _) hfirst.begins
      (hfirst.read _ (delimited_spellItems L _ _ ds rest))
      (spellItems_read depth k ds hds (Nat.lt_of_succ_lt_succ hfuel))

theorem spellMembers_read {levels : Nat} (depth k : Nat) {rest : Bytes} :
    (ds : List (String × Datum)) → Datum.LegibleMembers float levels ds → {fuel : Nat} →
      ds.length < fuel →
      membersAfter (value levels) fuel (spellMembers L depth ds ++ (L.lead k ++ 125 :: rest)) =
        .ok (Datum.membersReadWith float ds, rest)
  | [], _, fuel + 1, _ => membersAfter_end (L.lead_blank k) fuel
  | (name, d) :: ds, h, fuel + 1, hfuel => by
    obtain ⟨hd, hds⟩ := h
    have hfirst := spell_readAs depth d hd
    rw [spellMembers, Datum.membersReadWith]
    simp only [List.append_assoc, List.cons_append]
    refine membersAfter_cons (L.lead_blank _) (member_cons name ?_)
      (spellMembers_read depth k ds hds (Nat.lt_of_succ_lt_succ hfuel))
    rw [value_append L.gap_blank]
    exact hfirst.read _ (delimited_spellMembers L _ _ ds rest)

end

/-- A document that is the spelling of a legible datum is its JSON value. -/
theorem document_spell {d : Datum} (h : d.LegibleWith float maxDepth) :
    document (spell L 0 d) = .ok (d.readWith float) := by
  have hread := (spell_readAs L 0 d h).read [] trivial
  rw [List.append_nil] at hread
  rw [document, documentWithin, hread]
  rfl

end Json.Reader

/-! ## The texts of a datum -/

namespace Datum

variable {d : Datum}

theorem encode_compactText (d : Datum) :
    Utf8.encode d.compactText = Writer.spell .tight 0 d := by
  rw [compactText, Utf8.encode_join]
  exact Writer.bytes_compact 0 d

theorem encode_prettyText (d : Datum) :
    Utf8.encode d.prettyText = Writer.spell .indented 0 d := by
  rw [prettyText, Utf8.encode_join]
  exact Writer.bytes_pretty 0 d

end Datum

namespace Json

variable {float : Double → Json} {d : Datum}

theorem ofText_text (h : d.LegibleWith float Reader.maxDepth) (pretty : Bool) :
    ofText (d.text pretty) = .ok (d.readWith float) := by
  cases pretty with
  | true =>
    show ofText d.prettyText = _
    simp only [ofText, Datum.encode_prettyText, Reader.document_spell _ h]
    rfl
  | false =>
    show ofText d.compactText = _
    simp only [ofText, Datum.encode_compactText, Reader.document_spell _ h]
    rfl

theorem ofText_compactText (h : d.Legible Reader.maxDepth) :
    ofText d.compactText = .ok d.toJson := by
  rw [← Datum.readWith_floatToJson]
  exact ofText_text h false

theorem ofText_prettyText (h : d.Legible Reader.maxDepth) :
    ofText d.prettyText = .ok d.toJson := by
  rw [← Datum.readWith_floatToJson]
  exact ofText_text h true

end Json

end Untagged
