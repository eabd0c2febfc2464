import Untagged.Proofs.Json.Literals
import Untagged.Proofs.Shape.Exact
import Untagged.Proofs.Union.Recoding

/-!
# Arrays of numbers and arrays of labels

A series is an array, and its items decide which one it is.  Numbers are tried first
and take the arrays whose items are all integer literals in range, the empty array
among them.  Labels take the arrays of strings that are left, which are the ones with
an item.  Everything else is no series (`array_texts_by_items`).
-/

namespace Untagged

open Json.Reader (ArrayText IntegerLiteral Literal)

/-! ## Values -/

namespace SeriesVariant

/-- What is read back of a series that was written: without an item, numbers. -/
def settled : SeriesVariant → SeriesVariant
  | labels [] => numbers []
  | x => x

end SeriesVariant

theorem numbers_decode_iff {v : Json} {is : List Int64} :
    (SeriesVariant.numbersShape.decode v).outcome = .ok is ↔
      ∃ vs, v = .array vs ∧
        List.Forall₂ (fun v i => v = .number (.integer (.ofInt64 i))) vs is := by
  show ((Shape.list .int64).decode v).outcome = .ok is ↔ _
  rw [Shape.list_decode_eq_ok_iff]
  simp only [Shape.int64_decode_eq_ok_iff]

theorem labels_decode_iff {v : Json} {ls : List String} :
    (SeriesVariant.labelsShape.decode v).outcome = .ok ls ↔ v = .array (ls.map .string) := by
  show ((Shape.list .string).decode v).outcome = .ok ls ↔ _
  rw [Shape.list_decode_eq_ok_iff]
  simp only [Shape.string_decode_eq_ok_iff, ← List.forall₂_map_right_iff, List.forall₂_eq_eq_eq]
  constructor
  · intro h
    obtain ⟨vs, rfl, rfl⟩ := h
    rfl
  · intro h
    exact ⟨_, h, rfl⟩

theorem numbers_accepts_iff {v : Json} {x : SeriesVariant} :
    (Candidate.ofShape "Numbers" SeriesVariant.numbersShape SeriesVariant.numbers).Accepts v x ↔
      ∃ vs is, v = .array vs ∧ x = .numbers is ∧
        List.Forall₂ (fun v i => v = .number (.integer (.ofInt64 i))) vs is := by
  rw [Candidate.ofShape_accepts_iff]
  constructor
  · intro h
    obtain ⟨is, his, rfl⟩ := h
    obtain ⟨vs, rfl, hitems⟩ := numbers_decode_iff.mp his
    exact ⟨vs, is, rfl, rfl, hitems⟩
  · intro h
    obtain ⟨vs, is, rfl, rfl, hitems⟩ := h
    exact ⟨is, numbers_decode_iff.mpr ⟨vs, rfl, hitems⟩, rfl⟩

theorem labels_accepts_iff {v : Json} {x : SeriesVariant} :
    (Candidate.ofShape "Labels" SeriesVariant.labelsShape SeriesVariant.labels).Accepts v x ↔
      ∃ ls, v = .array (ls.map .string) ∧ x = .labels ls := by
  rw [Candidate.ofShape_accepts_iff]
  constructor
  · intro h
    obtain ⟨ls, hls, rfl⟩ := h
    exact ⟨ls, labels_decode_iff.mp hls, rfl⟩
  · intro h
    obtain ⟨ls, hv, rfl⟩ := h
    exact ⟨ls, labels_decode_iff.mpr hv, rfl⟩

theorem series_decode_numbers_iff {vs : List Json} {is : List Int64} :
    (series.decode (.array vs)).outcome = .ok (.holding (.numbers is)) ↔
      List.Forall₂ (fun v i => v = .number (.integer (.ofInt64 i))) vs is := by
  rw [Union.decode_two_iff (u := series) rfl, numbers_accepts_iff, labels_accepts_iff]
  constructor
  · intro h
    obtain ⟨-, ⟨ws, js, heq, hx, hitems⟩ | ⟨-, ls, -, hx⟩⟩ := h
    · cases heq
      cases hx
      exact hitems
    · cases hx
  · intro h
    exact ⟨rfl, .inl ⟨vs, is, rfl, rfl, h⟩⟩

/-- A string is no number, so numbers leave every array of strings but the empty one. -/
theorem series_decode_labels_iff {vs : List Json} {ls : List String} :
    (series.decode (.array vs)).outcome = .ok (.holding (.labels ls)) ↔
      vs ≠ [] ∧ vs = ls.map .string := by
  rw [Union.decode_two_iff (u := series) rfl, numbers_accepts_iff, labels_accepts_iff,
    Candidate.rejects_iff]
  simp only [numbers_accepts_iff]
  constructor
  · intro h
    obtain ⟨-, ⟨ws, js, -, hx, -⟩ | ⟨hnone, ks, heq, hx⟩⟩ := h
    · cases hx
    · cases heq
      cases hx
      refine ⟨fun hnil => hnone (.numbers []) ⟨_, [], rfl, rfl, ?_⟩, rfl⟩
      rw [hnil]
      exact .nil
  · intro h
    obtain ⟨hne, rfl⟩ := h
    refine ⟨rfl, .inr ⟨fun x hx => ?_, ls, rfl, rfl⟩⟩
    obtain ⟨ws, is, heq, -, hitems⟩ := hx
    cases heq
    cases ls with
    | nil => exact hne rfl
    | cons l ls =>
      cases hitems with
      | cons hl _ => cases hl

/-- What is no array is no series. -/
theorem series_decode_object (ms : List (String × Json)) :
    (series.decode (.object ms)).outcome = .error (.noMatch "Series" ["Numbers", "Labels"]) := by
  refine Union.decode_of_rejects (u := series) rfl ?_
  rw [series, List.forall_mem_cons, List.forall_mem_singleton, Candidate.rejects_iff,
    Candidate.rejects_iff]
  refine ⟨fun x hx => ?_, fun x hx => ?_⟩
  · obtain ⟨vs, is, heq, -⟩ := numbers_accepts_iff.mp hx
    cases heq
  · obtain ⟨ls, heq, -⟩ := labels_accepts_iff.mp hx
    cases heq

/-! ## Texts -/

variable {text : String} {es : List Literal}

theorem decodeText_of_arrayText {α : Type} (u : Union α) (h : ArrayText text es) :
    u.decodeText text = u.decode (.array (es.map Literal.value)) := by
  rw [Union.decodeText, Json.Reader.ofText_array_iff.mpr ⟨es, h, rfl⟩]
  rfl

/-- The items of an array are these 64-bit integers exactly when they are spelled so. -/
theorem forall₂_integer_iff (h : ArrayText text es) {is : List Int64} :
    List.Forall₂ (fun v i => v = .number (.integer (.ofInt64 i))) (es.map Literal.value) is ↔
      List.Forall₂ (fun e i => IntegerLiteral e.bytes i.toInt) es is := by
  have hitem : ∀ e ∈ es, ∀ i : Int64,
      e.value = .number (.integer (.ofInt64 i)) ↔ IntegerLiteral e.bytes i.toInt :=
    fun e he i => h.integer_iff he
  clear h
  rw [List.forall₂_map_left_iff]
  induction es generalizing is with
  | nil => rw [List.forall₂_nil_left_iff, List.forall₂_nil_left_iff]
  | cons e es ih =>
    rw [List.forall_mem_cons] at hitem
    simp only [List.forall₂_cons_left_iff, hitem.1, ih hitem.2]

/-- Each item has a counterpart exactly when there is a list of counterparts. -/
theorem exists_forall₂_iff {α β : Type} {R : α → β → Prop} {as : List α} :
    (∃ bs, List.Forall₂ R as bs) ↔ ∀ a ∈ as, ∃ b, R a b := by
  induction as with
  | nil => simp
  | cons a as ih =>
    rw [List.forall_mem_cons, ← ih]
    simp only [List.forall₂_cons_left_iff]
    constructor
    · intro h
      obtain ⟨_, b, bs, hb, hbs, -⟩ := h
      exact ⟨⟨b, hb⟩, bs, hbs⟩
    · intro h
      obtain ⟨⟨b, hb⟩, bs, hbs⟩ := h
      exact ⟨_, b, bs, hb, hbs, rfl⟩

/-- The item is spelled as an integer of 64 bits. -/
def IsInt64 (e : Literal) : Prop :=
  ∃ k, IntegerLiteral e.bytes k ∧ -0x8000_0000_0000_0000 ≤ k ∧ k ≤ 0x7fff_ffff_ffff_ffff

theorem isInt64_iff {e : Literal} : IsInt64 e ↔ ∃ i : Int64, IntegerLiteral e.bytes i.toInt := by
  constructor
  · intro h
    obtain ⟨k, hk, hrange⟩ := h
    obtain ⟨i, rfl⟩ := Shape.exists_toInt_iff.mpr hrange
    exact ⟨i, hk⟩
  · intro h
    obtain ⟨i, hi⟩ := h
    exact ⟨i.toInt, hi, Shape.exists_toInt_iff.mp ⟨i, rfl⟩⟩

theorem series_decodeText_numbers_iff (h : ArrayText text es) {is : List Int64} :
    (series.decodeText text).outcome = .ok (.holding (.numbers is)) ↔
      List.Forall₂ (fun e i => IntegerLiteral e.bytes i.toInt) es is := by
  rw [decodeText_of_arrayText series h, series_decode_numbers_iff, forall₂_integer_iff h]

theorem series_decodeText_labels_iff (h : ArrayText text es) {ls : List String} :
    (series.decodeText text).outcome = .ok (.holding (.labels ls)) ↔
      es ≠ [] ∧ es.map Literal.value = ls.map .string := by
  rw [decodeText_of_arrayText series h, series_decode_labels_iff, Ne, List.map_eq_nil_iff]

theorem exists_numbers_iff (h : ArrayText text es) :
    (∃ is, (series.decodeText text).outcome = .ok (.holding (.numbers is))) ↔
      ∀ e ∈ es, IsInt64 e := by
  simp only [series_decodeText_numbers_iff h, exists_forall₂_iff, isInt64_iff]

theorem exists_labels_iff (h : ArrayText text es) :
    (∃ ls, (series.decodeText text).outcome = .ok (.holding (.labels ls))) ↔
      es ≠ [] ∧ ∀ e ∈ es, e.value.kind = .string := by
  have hstring {v : Json} : v.kind = .string ↔ ∃ s, v = .string s := by
    cases v <;> simp [Json.kind]
  have hitems {ls : List String} : es.map Literal.value = ls.map .string ↔
      List.Forall₂ (fun e l => e.value = .string l) es ls := by
    rw [← List.forall₂_eq_eq_eq, List.forall₂_map_left_iff, List.forall₂_map_right_iff]
  simp only [series_decodeText_labels_iff h, exists_and_left, hitems, exists_forall₂_iff, hstring]

/-! ## What was written -/

theorem series_legible (x : SeriesVariant) :
    (series.toDatum (.holding x)).Legible Json.Reader.maxDepth := by
  cases x with
  | numbers is =>
    refine (Datum.legibleItems_iff _).mpr fun d hd => ?_
    obtain ⟨i, -, rfl⟩ := List.mem_map.mp hd
    trivial
  | labels ls =>
    refine (Datum.legibleItems_iff _).mpr fun d hd => ?_
    obtain ⟨l, -, rfl⟩ := List.mem_map.mp hd
    trivial

theorem series_decode_toJson (x : SeriesVariant) :
    (series.decode (series.toJson (.holding x))).outcome = .ok (.holding x.settled) := by
  cases x with
  | numbers is =>
    have hitems : Datum.itemsToJson (is.map Shape.int64.encode) =
        is.map fun i => .number (.integer (.ofInt64 i)) := by
      rw [Datum.itemsToJson_eq_map, List.map_map]
      rfl
    show (series.decode (.array (Datum.itemsToJson (is.map Shape.int64.encode)))).outcome = _
    rw [hitems]
    refine series_decode_numbers_iff.mpr ?_
    rw [List.forall₂_map_left_iff]
    exact List.forall₂_same.mpr fun _ _ => rfl
  | labels ls =>
    have hitems : Datum.itemsToJson (ls.map Shape.string.encode) = ls.map .string := by
      rw [Datum.itemsToJson_eq_map, List.map_map]
      rfl
    show (series.decode (.array (Datum.itemsToJson (ls.map Shape.string.encode)))).outcome = _
    rw [hitems]
    cases ls with
    | nil => exact series_decode_numbers_iff.mpr .nil
    | cons l ls => exact series_decode_labels_iff.mpr ⟨List.cons_ne_nil _ _, rfl⟩

/-! ## Array texts -/

/-- What the series makes of an array text with the items `es`. -/
structure SeriesOf (text : String) (es : List Literal) : Prop where
  numbers : ∀ is : List Int64, (series.decodeText text).outcome = .ok (.holding (.numbers is)) ↔
    List.Forall₂ (fun e i => IntegerLiteral e.bytes i.toInt) es is
  numbers_iff : (∃ is, (series.decodeText text).outcome = .ok (.holding (.numbers is))) ↔
    ∀ e ∈ es, IsInt64 e
  labels : ∀ ls : List String, (series.decodeText text).outcome = .ok (.holding (.labels ls)) ↔
    es ≠ [] ∧ es.map Literal.value = ls.map .string
  labels_iff : (∃ ls, (series.decodeText text).outcome = .ok (.holding (.labels ls))) ↔
    es ≠ [] ∧ ∀ e ∈ es, e.value.kind = .string
  /-- Items that are neither all integers nor all strings are no series. -/
  noMatch_iff :
    (series.decodeText text).outcome = .error (.noMatch "Series" ["Numbers", "Labels"]) ↔
      (¬ ∀ e ∈ es, IsInt64 e) ∧ ¬ (es ≠ [] ∧ ∀ e ∈ es, e.value.kind = .string)

theorem seriesOf_arrayText (h : ArrayText text es) : SeriesOf text es where
  numbers _ := series_decodeText_numbers_iff h
  numbers_iff := exists_numbers_iff h
  labels _ := series_decodeText_labels_iff h
  labels_iff := exists_labels_iff h
  noMatch_iff := by
    rw [← exists_numbers_iff h, ← exists_labels_iff h, decodeText_of_arrayText series h]
    refine (Union.decode_eq_noMatch_iff (u := series)).trans ⟨fun hnone => ?_, fun hnone => ?_⟩
    · exact ⟨fun ⟨is, his⟩ => hnone.2 _ his, fun ⟨ls, hls⟩ => hnone.2 _ hls⟩
    · refine ⟨rfl, fun x hx => ?_⟩
      cases x with
      | numbers is => exact hnone.1 ⟨is, hx⟩
      | labels ls => exact hnone.2 ⟨ls, hx⟩

/-- What the series makes of a text. -/
structure ReadsSeries (text : String) : Prop where
  /-- The items of an array decide. -/
  items : ∀ es, ArrayText text es → SeriesOf text es
  /-- Every text that is read as an array is one of items. -/
  arrays : ∀ vs, Json.ofText text = .ok (.array vs) →
    ∃ es, ArrayText text es ∧ vs = es.map Literal.value
  /-- An object is no series. -/
  objects : ∀ ms, Json.ofText text = .ok (.object ms) →
    (series.decodeText text).outcome = .error (.noMatch "Series" ["Numbers", "Labels"])

/-- The items of a text decide what series it is, if any.  What is written for a series is
read back as it, except that no labels become no numbers. -/
theorem array_texts_by_items :
    (∀ text, ReadsSeries text) ∧
      ∀ x : SeriesVariant, series.ReadsBack (.holding x) (.holding x.settled) := by
  refine ⟨fun text => ⟨fun es h => seriesOf_arrayText h, fun vs h => ?_, fun ms h => ?_⟩,
    fun x => .of_value (series_legible x) (series_decode_toJson x)⟩
  · exact Json.Reader.ofText_array_iff.mp h
  · rw [Union.decodeText, h]
    exact series_decode_object ms

/-- Two integers between white space, and a text that is no series. -/
theorem short_arrays_by_items :
    let one : Literal := ⟨[45, 49], .number (.integer (.ofInt64 (-1)))⟩
    let two : Literal := ⟨[50], .number (.integer (.ofInt64 2))⟩
    ArrayText "[ -1 ,2]" [one, two] ∧
    (series.decodeText "[ -1 ,2]").outcome = .ok (.holding (.numbers [-1, 2])) ∧
    (series.decodeText "\x7b\x7d").outcome =
      .error (.noMatch "Series" ["Numbers", "Labels"]) := by
  intro one two
  obtain ⟨htexts, -⟩ := array_texts_by_items
  have hopen : Json.Reader.skipBlanks (Utf8.encode "[ -1 ,2]") =
      91 :: [32, 45, 49, 32, 44, 50, 93] := by decide +kernel
  have htext : ArrayText "[ -1 ,2]" [one, two] :=
    .items hopen rfl (by decide) (.more rfl rfl rfl (by decide) (.last rfl)) rfl rfl
  have hwhole (c : Char) (hdigit : c.isDigit = true) (hc : c ≠ '0') : Json.Reader.Whole [c] :=
    ⟨List.forall_mem_singleton.mpr hdigit, .inr ⟨c, [], rfl, hc⟩⟩
  have hone : IntegerLiteral one.bytes (-1 : Int64).toInt :=
    .negative (hwhole '1' rfl (by decide)) (by decide)
  have htwo : IntegerLiteral two.bytes (2 : Int64).toInt :=
    .natural (hwhole '2' rfl (by decide))
  have hseries := (htexts "[ -1 ,2]").items _ htext
  exact ⟨htext, (hseries.numbers _).mpr (.cons hone (.cons htwo .nil)),
    (htexts _).objects [] rfl⟩

end Untagged
