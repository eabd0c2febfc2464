import Untagged.Proofs.Json.Quoted

/-!
# One spelling under two layouts

A layout says which white space leads a line at some depth and which stands behind
the colon of a member.  Under a layout a datum is spelled in one way, and the
compact and the pretty form are that spelling without white space and with one line
for every item and member (`bytes_compact`, `bytes_pretty`).  What is proved of
spellings holds of both forms.
-/

namespace Untagged

/-! ## Layouts -/

/-- The white space of a document. -/
structure Layout where
  /-- What leads a line at some depth. -/
  lead : Nat → Bytes
  /-- What stands behind the colon of a member. -/
  gap : Bytes
  lead_blank : ∀ k, ∀ b ∈ lead k, Json.Reader.isBlank b = true
  gap_blank : ∀ b ∈ gap, Json.Reader.isBlank b = true

namespace Layout

/-- No white space at all. -/
def tight : Layout where
  lead _ := []
  gap := []
  lead_blank := by simp
  gap_blank := by simp

/-- A line for every item and every member, two spaces deeper than what holds it. -/
def indented : Layout where
  lead k := 10 :: List.replicate (2 * k) 32
  gap := [32]
  lead_blank k b hb := by
    rcases List.mem_cons.mp hb with rfl | hb
    · rfl
    · rw [List.eq_of_mem_replicate hb]
      rfl
  gap_blank b hb := by
    rw [List.mem_singleton.mp hb]
    rfl

@[simp]
theorem tight_lead (k : Nat) : tight.lead k = [] := rfl

@[simp]
theorem tight_gap : tight.gap = [] := rfl

@[simp]
theorem indented_lead (k : Nat) : indented.lead k = 10 :: List.replicate (2 * k) 32 := rfl

@[simp]
theorem indented_gap : indented.gap = [32] := rfl

end Layout

namespace Writer

mutual

/-- The bytes of a datum under a layout, inside `depth` containers. -/
def spell (L : Layout) (depth : Nat) : Datum → Bytes
  | .null => Utf8.encode "null"
  | .boolean b => Utf8.encode (booleanText b)
  | .integer i => Utf8.encode (toString i.val)
  | .float x => Utf8.encode (floatText x)
  | .string s => 34 :: unopened s
  | .sequence [] => [91, 93]
  | .sequence (d :: ds) =>
    91 :: (L.lead (depth + 1) ++ (spell L (depth + 1) d ++ (spellItems L (depth + 1) ds
      ++ (L.lead depth ++ [93]))))
  | .record [] => [123, 125]
  | .record ((name, d) :: ds) =>
    123 :: (L.lead (depth + 1) ++ (34 :: (unopened name ++ (58 :: (L.gap
      ++ (spell L (depth + 1) d ++ (spellMembers L (depth + 1) ds
        ++ (L.lead depth ++ [125]))))))))

/-- The bytes of the items behind the first one. -/
def spellItems (L : Layout) (depth : Nat) : List Datum → Bytes
  | [] => []
  | d :: ds => 44 :: (L.lead depth ++ (spell L depth d ++ spellItems L depth ds))

/-- The bytes of the members behind the first one. -/
def spellMembers (L : Layout) (depth : Nat) : List (String × Datum) → Bytes
  | [] => []
  | (name, d) :: ds =>
    44 :: (L.lead depth ++ (34 :: (unopened name ++ (58 :: (L.gap
      ++ (spell L depth d ++ spellMembers L depth ds))))))

end

theorem encode_marks :
    Utf8.encode "[" = [91] ∧ Utf8.encode "]" = [93] ∧ Utf8.encode "\x7b" = [123] ∧
      Utf8.encode "\x7d" = [125] ∧ Utf8.encode "," = [44] ∧ Utf8.encode ":" = [58] ∧
      Utf8.encode ",\n" = [44, 10] ∧ Utf8.encode ": " = [58, 32] ∧ Utf8.encode "\n" = [10] := by
  decide +kernel

mutual

theorem bytes_compact (depth : Nat) : (d : Datum) → bytes (compact d) = spell .tight depth d
  | .null => by rw [compact, bytes_singleton, spell]
  | .boolean b => by rw [compact, bytes_singleton, spell]
  | .integer i => by rw [compact, bytes_singleton, spell]
  | .float x => by rw [compact, bytes_singleton, spell]
  | .string s => by rw [compact, bytes_stringPieces, spell]
  | .sequence [] => by rw [spell]; decide +kernel
  | .sequence (d :: ds) => by
    obtain ⟨hopen, hclose, -⟩ := encode_marks
    simp only [compact, compactItems, if_true, List.nil_append, List.cons_append, bytes_cons,
      bytes_append, bytes_nil, hopen, hclose, bytes_compact (depth + 1) d,
      bytes_compactItems (depth + 1) ds, spell, Layout.tight_lead, List.append_assoc]
  | .record [] => by rw [spell]; decide +kernel
  | .record ((name, d) :: ds) => by
    obtain ⟨-, -, hopen, hclose, -, hcolon, -⟩ := encode_marks
    simp only [compact, compactMembers, if_true, List.nil_append, List.cons_append, bytes_cons,
      bytes_append, bytes_nil, hopen, hclose, hcolon, bytes_stringPieces,
      bytes_compact (depth + 1) d, bytes_compactMembers (depth + 1) ds, spell, Layout.tight_lead,
      Layout.tight_gap, List.append_assoc]

theorem bytes_compactItems (depth : Nat) :
    (ds : List Datum) → bytes (compactItems false ds) = spellItems .tight depth ds
  | [] => rfl
  | d :: ds => by
    obtain ⟨-, -, -, -, hcomma, -⟩ := encode_marks
    simp only [compactItems, Bool.false_eq_true, if_false, bytes_append, bytes_cons, hcomma,
      bytes_compact depth d, bytes_compactItems depth ds, spellItems, Layout.tight_lead,
      List.nil_append, List.cons_append]

theorem bytes_compactMembers (depth : Nat) :
    (ds : List (String × Datum)) →
      bytes (compactMembers false ds) = spellMembers .tight depth ds
  | [] => rfl
  | (name, d) :: ds => by
    obtain ⟨-, -, -, -, hcomma, hcolon, -⟩ := encode_marks
    simp only [compactMembers, Bool.false_eq_true, if_false, bytes_append, bytes_cons,
      hcomma, hcolon, bytes_stringPieces, bytes_compact depth d, bytes_compactMembers depth ds,
      spellMembers, Layout.tight_lead, Layout.tight_gap, List.nil_append, List.append_assoc,
      List.cons_append]

end

theorem bytes_margin (depth : Nat) : bytes (margin depth) = List.replicate (2 * depth) 32 := by
  have hpair : Utf8.encode "  " = [32, 32] := by decide +kernel
  induction depth with
  | zero => rfl
  | succ depth ih =>
    rw [margin, List.replicate_succ, ← margin, bytes_cons, ih, hpair, Nat.mul_succ]
    rfl

mutual

theorem bytes_pretty (depth : Nat) : (d : Datum) → bytes (pretty depth d) = spell .indented depth d
  | .null => by rw [pretty, bytes_singleton, spell]
  | .boolean b => by rw [pretty, bytes_singleton, spell]
  | .integer i => by rw [pretty, bytes_singleton, spell]
  | .float x => by rw [pretty, bytes_singleton, spell]
  | .string s => by rw [pretty, bytes_stringPieces, spell]
  | .sequence [] => by rw [pretty, spell]; decide +kernel
  | .sequence (d :: ds) => by
    obtain ⟨hopen, hclose, -, -, -, -, -, -, hline⟩ := encode_marks
    simp only [pretty, List.nil_append, List.cons_append, bytes_cons, bytes_append,
      bytes_nil, hopen, hclose, hline, bytes_margin, bytes_pretty (depth + 1) d,
      bytes_prettyItems (depth + 1) ds, spell, Layout.indented_lead,
      List.append_assoc]
  | .record [] => by rw [pretty, spell]; decide +kernel
  | .record ((name, d) :: ds) => by
    obtain ⟨-, -, hopen, hclose, -, -, -, hcolon, hline⟩ := encode_marks
    simp only [pretty, List.nil_append, List.cons_append, bytes_cons, bytes_append,
      bytes_nil, hopen, hclose, hcolon, hline, bytes_margin, bytes_stringPieces,
      bytes_pretty (depth + 1) d, bytes_prettyMembers (depth + 1) ds, spell, Layout.indented_lead,
      Layout.indented_gap, List.append_assoc]

theorem bytes_prettyItems (depth : Nat) :
    (ds : List Datum) → bytes (prettyItems depth ds) = spellItems .indented depth ds
  | [] => rfl
  | d :: ds => by
    obtain ⟨-, -, -, -, -, -, hcomma, -⟩ := encode_marks
    simp only [prettyItems, bytes_append, bytes_cons, hcomma, bytes_margin, bytes_pretty depth d,
      bytes_prettyItems depth ds, spellItems, Layout.indented_lead, List.nil_append,
      List.append_assoc, List.cons_append]

theorem bytes_prettyMembers (depth : Nat) :
    (ds : List (String × Datum)) →
      bytes (prettyMembers depth ds) = spellMembers .indented depth ds
  | [] => rfl
  | (name, d) :: ds => by
    obtain ⟨-, -, -, -, -, -, hcomma, hcolon, -⟩ := encode_marks
    simp only [prettyMembers, bytes_append, bytes_cons, hcomma, hcolon, bytes_margin,
      bytes_stringPieces, bytes_pretty depth d, bytes_prettyMembers depth ds, spellMembers,
      Layout.indented_lead,
      Layout.indented_gap, List.nil_append, List.append_assoc, List.cons_append]

end

end Writer

end Untagged
