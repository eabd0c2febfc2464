import Untagged.Proofs.Json.Literals
import Untagged.Proofs.Shape.Exact
import Untagged.Proofs.Shape.Open
import Untagged.Proofs.Union.Checked
import Untagged.Proofs.Unions.Orderly

/-!
# Amounts

An order is an amount, as the last member of that name or as the only element of an
array.  Decoding with validation sorts all texts by it (`orders_by_amount`): an integer
literal of 64 bits is an order where it is not negative and a finding where it is, any
other object or array matches no variant, and what is left is malformed.
-/

namespace Untagged

open Json.Reader (ArrayText IntegerLiteral Literal MembersText)

variable {text : String} {v : Json}

/-! ## One member of a text -/

/-- The text has `e` as its last member of the name, or as its only element. -/
inductive SoleText (name text : String) (e : Literal) : Prop
  | member {before after : List (String × Literal)}
    (h : MembersText text (before ++ (name, e) :: after)) (hlast : name ∉ after.map Prod.fst)
  | element (h : ArrayText text [e])

/-- The value has the member exactly when the text has it. -/
theorem sole_iff_soleText (htext : Json.ofText text = .ok v) {name : String} {x : Json} :
    Sole name x v ↔ ∃ e, SoleText name text e ∧ e.value = x := by
  have hv := Json.Reader.nodup_members_of_ofText htext
  constructor
  · intro h
    cases h with
    | member h =>
      obtain ⟨pairs, hpairs, rfl⟩ := Json.Reader.ofText_object_iff.mp htext
      obtain ⟨ms, hms, rfl⟩ := Json.Reader.objectText_iff_membersText.mp hpairs
      have hmem := (Json.lookup?_eq_some_iff hv).mp h
      obtain ⟨before, e, after, rfl, rfl, hafter⟩ :=
        Json.Reader.isLast_valuesOf_iff.mp (Json.mem_collect_iff.mp hmem)
      exact ⟨e, .member hms hafter, rfl⟩
    | element =>
      obtain ⟨es, hes, heq⟩ := Json.Reader.ofText_array_iff.mp htext
      obtain ⟨e, rfl, rfl⟩ := List.map_eq_singleton_iff.mp heq.symm
      exact ⟨e, .element hes, rfl⟩
  · intro h
    obtain ⟨e, hsole, rfl⟩ := h
    cases hsole with
    | member hms hlast =>
      cases htext.symm.trans (hms.ofText)
      refine .member ((Json.lookup?_eq_some_iff hv).mpr (Json.mem_collect_iff.mpr ?_))
      exact Json.Reader.isLast_valuesOf_iff.mpr ⟨_, e, _, rfl, rfl, hlast⟩
    | element hes =>
      cases htext.symm.trans (Json.Reader.ofText_array_iff.mpr ⟨[e], hes, rfl⟩)
      exact .element

/-- What has the member is an object or an array. -/
theorem SoleText.exists_ofText {name : String} {e : Literal} (h : SoleText name text e) :
    ∃ v, Json.ofText text = .ok v ∧ v.kind.isContainer = true := by
  cases h with
  | member hms hlast => exact ⟨_, hms.ofText, rfl⟩
  | element hes => exact ⟨_, Json.Reader.ofText_array_iff.mpr ⟨[e], hes, rfl⟩, rfl⟩

theorem SoleText.integer_iff {name : String} {e : Literal} (h : SoleText name text e)
    {i : Integer} : e.value = .number (.integer i) ↔ IntegerLiteral e.bytes i.val := by
  cases h with
  | @member before after hms hlast =>
    have hmem : (name, e) ∈ before ++ (name, e) :: after :=
      List.mem_append_right before (.head after)
    exact hms.integer_iff hmem
  | element hes => exact hes.integer_iff (List.mem_singleton_self e)

/-! ## Orders -/

/-- The amount of the text is an integer literal with this value. -/
def AmountText (text : String) (k : Int) : Prop :=
  ∃ e, SoleText "amount" text e ∧ IntegerLiteral e.bytes k

theorem Quantity.isSole :
    Quantity.record.IsSole .int64 (fun n q => { q with amount := n })
      (.required "amount" .int64 Quantity.amount fun n q => { q with amount := n }) where
  members := rfl
  isOpen := rfl
  required := rfl
  positional := rfl
  sets := Member.required_setsBy _ _

theorem Quantity.decode_iff (hv : (v.members.map Prod.fst).Nodup) {q : Quantity} :
    (Quantity.record.decode v).outcome = .ok q ↔
      Sole "amount" (.number (.integer (.ofInt64 q.amount))) v := by
  rw [Quantity.isSole.decode_iff hv]
  constructor
  · intro h
    obtain ⟨x, amount, hsole, hx, rfl⟩ := h
    obtain rfl := Shape.int64_decode_eq_ok_iff.mp hx
    exact hsole
  · intro h
    exact ⟨_, q.amount, h, Shape.int64_decode_eq_ok_iff.mpr rfl, rfl⟩

theorem order_decode_iff (hv : (v.members.map Prod.fst).Nodup) {q : Quantity} :
    (order.decode v).outcome = .ok (.holding q) ↔
      Sole "amount" (.number (.integer (.ofInt64 q.amount))) v := by
  rw [Union.decode_one_iff (u := order) rfl, Candidate.ofShape_accepts_iff]
  constructor
  · intro h
    obtain ⟨-, r, hr, rfl⟩ := h
    exact (Quantity.decode_iff hv).mp hr
  · intro h
    have hcontainer : v.kind.isContainer = true := by
      cases h <;> rfl
    exact ⟨hcontainer, q, (Quantity.decode_iff hv).mpr h, rfl⟩

theorem order_decodeText_iff {q : Quantity} :
    (order.decodeText text).outcome = .ok (.holding q) ↔ AmountText text q.amount.toInt := by
  constructor
  · intro h
    rw [Union.decodeText] at h
    cases htext : Json.ofText text with
    | ok v =>
      rw [htext] at h
      have hsole := (order_decode_iff (Json.Reader.nodup_members_of_ofText htext)).mp h
      obtain ⟨e, he, hvalue⟩ := (sole_iff_soleText htext).mp hsole
      exact ⟨e, he, he.integer_iff.mp hvalue⟩
    | error e =>
      rw [htext] at h
      cases h
  · intro h
    obtain ⟨e, he, hliteral⟩ := h
    obtain ⟨v, htext, -⟩ := he.exists_ofText
    have hvalue : e.value = .number (.integer (.ofInt64 q.amount)) := he.integer_iff.mpr hliteral
    rw [Union.decodeText, htext]
    exact (order_decode_iff (Json.Reader.nodup_members_of_ofText htext)).mpr
      ((sole_iff_soleText htext).mpr ⟨e, he, hvalue⟩)

/-- The amounts that are read are the ones of 64 bits. -/
theorem exists_order_iff {P : Int → Prop} :
    (∃ q, (order.decodeText text).outcome = .ok (.holding q) ∧ P q.amount.toInt) ↔
      ∃ k, AmountText text k ∧ (-0x8000_0000_0000_0000 ≤ k ∧ k ≤ 0x7fff_ffff_ffff_ffff) ∧ P k := by
  simp only [order_decodeText_iff]
  constructor
  · intro h
    obtain ⟨q, hq, hP⟩ := h
    exact ⟨_, hq, Shape.exists_toInt_iff.mp ⟨q.amount, rfl⟩, hP⟩
  · intro h
    obtain ⟨k, hk, hrange, hP⟩ := h
    obtain ⟨i, rfl⟩ := Shape.exists_toInt_iff.mpr hrange
    exact ⟨⟨i⟩, hk, hP⟩

/-- What is found about a negative amount. -/
def negativeAmount : Finding := .ofMember "amount" "must not be negative"

theorem order_validate (q : Quantity) :
    order.validate (.holding q) = if q.amount.toInt < 0 then [negativeAmount] else [] := by
  have hlt : q.amount < 0 ↔ q.amount.toInt < 0 := Int64.lt_iff_toInt_lt
  show q.findings = _
  rw [Quantity.findings]
  by_cases h : q.amount.toInt < 0
  · rw [if_pos h, if_pos (hlt.mpr h)]
    rfl
  · rw [if_neg h, if_neg (mt hlt.mp h)]

theorem order_decodeText_holding {x : OneOf Quantity}
    (h : (order.decodeText text).outcome = .ok x) : ∃ q, x = .holding q := by
  cases x with
  | empty => exact absurd h (Union.settled_decodeRead order (Json.ofText text)).1
  | holding q => exact ⟨q, rfl⟩

theorem order_checked_ok_iff {q : Quantity} :
    (order.decodeChecked text).outcome = .ok (.holding q) ↔
      AmountText text q.amount.toInt ∧ 0 ≤ q.amount.toInt := by
  rw [Union.decodeChecked_eq_ok_iff, order_decodeText_iff, order_validate]
  refine and_congr_right fun _ => ?_
  by_cases h : q.amount.toInt < 0
  · simp [h]
  · simp [h, Int.not_lt.mp h]

theorem order_checked_invalid_iff :
    (order.decodeChecked text).outcome = .error (.invalid "Order" [negativeAmount]) ↔
      ∃ q, (order.decodeText text).outcome = .ok (.holding q) ∧ q.amount.toInt < 0 := by
  refine (Union.decodeChecked_eq_invalid_iff (u := order)).trans ⟨fun h => ?_, fun h => ?_⟩
  · obtain ⟨-, -, x, hx, hfindings⟩ := h
    obtain ⟨q, rfl⟩ := order_decodeText_holding hx
    refine ⟨q, hx, ?_⟩
    by_contra hnot
    rw [order_validate, if_neg hnot] at hfindings
    cases hfindings
  · obtain ⟨q, hq, hnegative⟩ := h
    exact ⟨rfl, List.cons_ne_nil _ _, _, hq, by rw [order_validate, if_pos hnegative]⟩

/-- Decoding fails for an object or an array exactly when it has no amount of 64 bits. -/
theorem order_noMatch_iff :
    (order.decodeText text).outcome = .error (.noMatch "Order" ["Quantity"]) ↔
      (∃ v, Json.ofText text = .ok v ∧ v.kind.isContainer = true) ∧
        ¬ ∃ q, (order.decodeText text).outcome = .ok (.holding q) := by
  rw [Union.decodeText]
  cases htext : Json.ofText text with
  | ok v =>
    refine (Union.decode_eq_noMatch_iff (u := order)).trans ?_
    rw [not_exists]
    refine and_congr_left fun _ => ⟨fun hv => ⟨v, rfl, hv⟩, fun h => ?_⟩
    obtain ⟨w, hw, hcontainer⟩ := h
    cases hw
    exact hcontainer
  | error e =>
    constructor
    · intro h
      cases h
    · intro h
      obtain ⟨⟨w, hw, -⟩, -⟩ := h
      cases hw

theorem order_malformed_iff :
    (∃ found, (order.decodeText text).outcome = .error (.malformed "Order" found)) ↔
      ¬ ∃ v, Json.ofText text = .ok v ∧ v.kind.isContainer = true := by
  rw [Union.decodeText]
  cases htext : Json.ofText text with
  | ok v =>
    constructor
    · intro h
      obtain ⟨found, hfound⟩ := h
      obtain ⟨hv, -⟩ | ⟨-, -, heq⟩ := Union.decode_eq_error_iff.mp hfound
      · intro hcontainer
        obtain ⟨w, hw, hcontainer⟩ := hcontainer
        cases hw
        rw [hv] at hcontainer
        cases hcontainer
      · cases heq
    · intro h
      have hv : v.kind.isContainer = false :=
        Bool.eq_false_iff.mpr fun hcontainer => h ⟨v, rfl, hcontainer⟩
      exact ⟨_, (Union.decode_eq_malformed_iff (u := order)).mpr hv⟩
  | error e =>
    refine ⟨fun _ h => ?_, fun _ => ⟨.notJson e, rfl⟩⟩
    obtain ⟨w, hw, -⟩ := h
    cases hw

/-- What validation makes of what a union decodes from a text. -/
structure Union.ChecksDecoded {α : Type} (u : Union α) (text : String) : Prop where
  /-- A value is let through where nothing is found about it. -/
  ok_iff : ∀ x, (u.decodeChecked text).outcome = .ok x ↔
    (u.decodeText text).outcome = .ok x ∧ u.validate x = []
  /-- A failure for findings is one of validation, and tells what was found. -/
  invalid_iff : ∀ name findings,
    (u.decodeChecked text).outcome = .error (.invalid name findings) ↔
      name = u.name ∧ findings ≠ [] ∧
        ∃ x, (u.decodeText text).outcome = .ok x ∧ u.validate x = findings
  invalid : ∀ x, (u.decodeText text).outcome = .ok x → u.validate x ≠ [] →
    (u.decodeChecked text).outcome = .error (.invalid u.name (u.validate x))
  /-- What is not decoded fails as it does without validation. -/
  error : ∀ e, (u.decodeText text).outcome = .error e → (u.decodeChecked text).outcome = .error e
  /-- The findings of the first candidate that accepts count, whatever the others make of the
  text. -/
  first : ∀ v k a, Json.ofText text = .ok v → v.kind.isContainer = true →
    FirstAccepts u.candidates v k a →
    (u.decodeChecked text).outcome =
      if u.findings a = [] then .ok (.holding a) else .error (.invalid u.name (u.findings a))

theorem Union.checksDecoded {α : Type} (u : Union α) (text : String) : u.ChecksDecoded text where
  ok_iff _ := decodeChecked_eq_ok_iff
  invalid_iff _ _ := decodeChecked_eq_invalid_iff
  invalid x hx hne := by rw [decodeChecked_of_ok hx, if_neg hne]
  error _ he := decodeChecked_of_error he
  first _ _ _ htext hv h := decodeChecked_of_firstAccepts htext hv h

/-- What is made of a text as an order with validation, by the amount `k` that it has. -/
structure ChecksAmount (text : String) : Prop where
  holding_iff : ∀ q, (order.decodeChecked text).outcome = .ok (.holding q) ↔
    AmountText text q.amount.toInt ∧ 0 ≤ q.amount.toInt
  ok_iff : (∃ x, (order.decodeChecked text).outcome = .ok x) ↔
    ∃ k, AmountText text k ∧ 0 ≤ k ∧ k ≤ 0x7fff_ffff_ffff_ffff
  invalid_iff : (order.decodeChecked text).outcome =
      .error (.invalid "Order" [.ofMember "amount" "must not be negative"]) ↔
    ∃ k, AmountText text k ∧ -0x8000_0000_0000_0000 ≤ k ∧ k ≤ -1
  noMatch_iff : (order.decodeChecked text).outcome = .error (.noMatch "Order" ["Quantity"]) ↔
    (∃ v, Json.ofText text = .ok v ∧ v.kind.isContainer = true) ∧
      ¬ ∃ k, AmountText text k ∧ -0x8000_0000_0000_0000 ≤ k ∧ k ≤ 0x7fff_ffff_ffff_ffff
  malformed_iff :
    (∃ found, (order.decodeChecked text).outcome = .error (.malformed "Order" found)) ↔
      ¬ ∃ v, Json.ofText text = .ok v ∧ v.kind.isContainer = true

theorem checksAmount (text : String) : ChecksAmount text where
  holding_iff _ := order_checked_ok_iff
  ok_iff := by
    have hok : (∃ x, (order.decodeChecked text).outcome = .ok x) ↔
        ∃ q, (order.decodeText text).outcome = .ok (.holding q) ∧ 0 ≤ q.amount.toInt := by
      constructor
      · intro h
        obtain ⟨x, hx⟩ := h
        obtain ⟨q, rfl⟩ := order_decodeText_holding (Union.decodeChecked_eq_ok_iff.mp hx).1
        obtain ⟨hamount, hq⟩ := order_checked_ok_iff.mp hx
        exact ⟨q, order_decodeText_iff.mpr hamount, hq⟩
      · intro h
        obtain ⟨q, hdecode, hq⟩ := h
        exact ⟨_, order_checked_ok_iff.mpr ⟨order_decodeText_iff.mp hdecode, hq⟩⟩
    rw [hok, exists_order_iff]
    refine exists_congr fun k => and_congr_right fun _ => ?_
    omega
  invalid_iff := by
    refine order_checked_invalid_iff.trans (Iff.trans (exists_order_iff (P := (· < 0))) ?_)
    refine exists_congr fun k => and_congr_right fun _ => ?_
    omega
  noMatch_iff := by
    rw [Union.decodeChecked_eq_error_iff (fun _ _ => DecodeError.noConfusion), order_noMatch_iff]
    have hamount : (∃ q, (order.decodeText text).outcome = .ok (.holding q) ∧ True) ↔ _ :=
      exists_order_iff (P := fun _ => True)
    simp only [and_true] at hamount
    rw [hamount]
  malformed_iff := by
    rw [← order_malformed_iff]
    refine exists_congr fun found => ?_
    exact Union.decodeChecked_eq_error_iff nofun

/-- Decoding with validation refines decoding, for every union and every text.  For an order
the amount of the text decides. -/
theorem checked_refines_decoding :
    (∀ {α : Type} (u : Union α) (text : String), u.ChecksDecoded text) ∧
      ∀ text : String, ChecksAmount text :=
  ⟨Union.checksDecoded, checksAmount⟩

/-- The last amount counts, and a later candidate that would take a document does not help
one with findings. -/
theorem repeated_amount_is_checked :
    let negative := "\x7b\"amount\":1,\"amount\":-5\x7d"
    let bounded := "\x7b\"min\":-1,\"max\":0,\"amount\":1\x7d"
    let range : Range := ⟨-1, 0⟩
    AmountText negative (-5) ∧
    (order.decodeChecked negative).outcome =
      .error (.invalid "Order" [.ofMember "amount" "must not be negative"]) ∧
    (bounds.decodeText bounded).outcome = .ok (.holding (.range range)) ∧
    (bounds.decodeChecked bounded).outcome = .error (.invalid "Bounds" range.findings) ∧
    range.findings ≠ [] := by
  intro negative bounded range
  obtain ⟨hchecked, horders⟩ := checked_refines_decoding
  have hamount : AmountText negative (-5) := by
    let one : Literal := ⟨[49], .number (.integer (.ofInt64 1))⟩
    let five : Literal := ⟨[45, 53], .number (.integer (.ofInt64 (-5)))⟩
    have hopen : Json.Reader.skipBlanks (Utf8.encode negative) =
        123 :: (Utf8.encode negative).tail := by decide +kernel
    have hmembers : MembersText negative ([("amount", one)] ++ ("amount", five) :: []) :=
      .members hopen (.more rfl rfl rfl (by decide) (.last rfl)) rfl rfl
    have hdigit : Json.Reader.Whole ['5'] :=
      ⟨List.forall_mem_singleton.mpr rfl, .inr ⟨'5', [], rfl, by decide⟩⟩
    exact ⟨five, .member hmembers List.not_mem_nil, .negative hdigit (by decide)⟩
  have hbounds : (bounds.decodeText bounded).outcome = .ok (.holding (.range range)) := rfl
  have hfindings : bounds.validate (.holding (.range range)) ≠ [] := by decide
  refine ⟨hamount, (horders negative).invalid_iff.mpr ⟨-5, hamount, by decide, by decide⟩,
    hbounds, (hchecked bounds bounded).invalid _ hbounds hfindings, hfindings⟩

end Untagged
