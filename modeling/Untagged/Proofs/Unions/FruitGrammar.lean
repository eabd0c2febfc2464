import Untagged.Proofs.Shape.Closed
import Untagged.Proofs.Shape.Exact
import Untagged.Proofs.Union.Order
import Untagged.Proofs.Unions.Orderly

/-!
# The grammar of fruit requests

Both fruits are records of a value and a truth value: an apple of its cultivar and
whether it is mealy, a banana of its length and whether it is sweet.  What is decoded
as an apple or a banana is therefore given by the grammar of such pairs, and whatever
else is an object or an array matches no variant.
-/

namespace Untagged

variable {v : Json}

theorem AppleReq.isPair :
    AppleReq.record.IsPair .string (fun c a => { a with cultivar := c })
      (fun m a => { a with mealy := m })
      (.required "cultivar" .string AppleReq.cultivar fun c a => { a with cultivar := c })
      (.omitted "mealy" .boolean AppleReq.mealy fun m a => { a with mealy := m }) where
  orderly := AppleReq.record_orderly
  closed := rfl
  members := rfl
  required := rfl
  positional := rfl
  optional := rfl
  sets := Member.required_setsBy _ _
  setsFlag := Member.omitted_setsBy _ _
  blank _ := rfl

theorem BananaReq.isPair :
    BananaReq.record.IsPair .double (fun l b => { b with lengthCm := l })
      (fun s b => { b with sweet := s })
      (.required "lengthCm" .double BananaReq.lengthCm fun l b => { b with lengthCm := l })
      (.omitted "sweet" .boolean BananaReq.sweet fun s b => { b with sweet := s }) where
  orderly := BananaReq.record_orderly
  closed := rfl
  members := rfl
  required := rfl
  positional := rfl
  optional := rfl
  sets := Member.required_setsBy _ _
  setsFlag := Member.omitted_setsBy _ _
  blank _ := rfl

theorem AppleReq.decode_iff {a : AppleReq} :
    (AppleReq.record.decode v).outcome = .ok a ↔
      Pair "cultivar" "mealy" (.string a.cultivar) a.mealy v := by
  rw [AppleReq.isPair.decode_iff]
  constructor
  · intro h
    obtain ⟨x, cultivar, mealy, hx, hpair, rfl⟩ := h
    obtain rfl := Shape.string_decode_eq_ok_iff.mp hx
    exact hpair
  · intro h
    exact ⟨.string a.cultivar, a.cultivar, a.mealy, rfl, h, rfl⟩

theorem BananaReq.decode_iff {b : BananaReq} :
    (BananaReq.record.decode v).outcome = .ok b ↔
      ∃ n : Number, n.toDouble = b.lengthCm ∧
        Pair "lengthCm" "sweet" (.number n) b.sweet v := by
  rw [BananaReq.isPair.decode_iff]
  constructor
  · intro h
    obtain ⟨x, length, sweet, hx, hpair, rfl⟩ := h
    obtain ⟨n, rfl, hn⟩ := Shape.double_decode_eq_ok_iff.mp hx
    exact ⟨n, hn, hpair⟩
  · intro h
    obtain ⟨n, hn, hpair⟩ := h
    exact ⟨.number n, b.lengthCm, b.sweet, Shape.double_decode_eq_ok_iff.mpr ⟨n, rfl, hn⟩, hpair,
      rfl⟩

/-! ## The union -/

theorem fruitReq_decode_apple_iff {a : AppleReq} :
    (fruitReq.decode v).outcome = .ok (.holding (.apple a)) ↔
      (AppleReq.record.decode v).outcome = .ok a := by
  constructor
  · intro h
    obtain ⟨c, hc, b, hb, heq⟩ := Union.exists_accepts_of_decode h
    obtain rfl : FruitVariant.apple a = b := OneOf.holding.inj heq
    rcases hc with _ | ⟨_, _ | ⟨_, hc⟩⟩
    · obtain ⟨a', ha', heq⟩ := Candidate.ofShape_accepts_iff.mp hb
      cases heq
      exact ha'
    · obtain ⟨b', -, heq⟩ := Candidate.ofShape_accepts_iff.mp hb
      cases heq
    · cases hc
  · intro h
    have hpair := AppleReq.decode_iff.mp h
    exact Union.decode_of_firstAccepts hpair.isContainer
      (.head (Candidate.ofShape_accepts_iff.mpr ⟨a, h, rfl⟩))

theorem fruitReq_decode_banana_iff {b : BananaReq} :
    (fruitReq.decode v).outcome = .ok (.holding (.banana b)) ↔
      (BananaReq.record.decode v).outcome = .ok b := by
  constructor
  · intro h
    obtain ⟨c, hc, a, ha, heq⟩ := Union.exists_accepts_of_decode h
    obtain rfl : FruitVariant.banana b = a := OneOf.holding.inj heq
    rcases hc with _ | ⟨_, _ | ⟨_, hc⟩⟩
    · obtain ⟨a', -, heq⟩ := Candidate.ofShape_accepts_iff.mp ha
      cases heq
    · obtain ⟨b', hb', heq⟩ := Candidate.ofShape_accepts_iff.mp ha
      cases heq
      exact hb'
    · cases hc
  · intro h
    obtain ⟨n, -, hpair⟩ := BananaReq.decode_iff.mp h
    have happle : (Candidate.ofShape "AppleReq" AppleReq.record.shape FruitVariant.apple).Rejects
        v := by
      rcases Candidate.rejects_or_accepts
        (.ofShape "AppleReq" AppleReq.record.shape FruitVariant.apple) v with hr | ⟨f, hf⟩
      · exact hr
      · obtain ⟨a, ha, -⟩ := Candidate.ofShape_accepts_iff.mp hf
        exact (not_apple_and_banana ha h).elim
    exact Union.decode_of_firstAccepts hpair.isContainer
      (.behind happle (.head (Candidate.ofShape_accepts_iff.mpr ⟨b, h, rfl⟩)))

/-- A fruit request is an apple where the value is a pair of a text and a flag, a banana where
it is one of a number and a flag, and nothing where it is neither. -/
theorem fruitReq_accepts_its_grammar (v : Json) :
    (∀ cultivar mealy,
      (fruitReq.decode v).outcome = .ok (.holding (.apple ⟨cultivar, mealy⟩)) ↔
        Pair "cultivar" "mealy" (.string cultivar) mealy v) ∧
    (∀ length sweet,
      (fruitReq.decode v).outcome = .ok (.holding (.banana ⟨length, sweet⟩)) ↔
        ∃ n : Number, n.toDouble = length ∧ Pair "lengthCm" "sweet" (.number n) sweet v) ∧
    ((fruitReq.decode v).outcome = .error (.noMatch "FruitReq" ["AppleReq", "BananaReq"]) ↔
      (v.kind = .object ∨ v.kind = .array) ∧
        (∀ cultivar mealy, ¬ Pair "cultivar" "mealy" (.string cultivar) mealy v) ∧
        ∀ n sweet, ¬ Pair "lengthCm" "sweet" (.number n) sweet v) ∧
    ((fruitReq.decode v).outcome = .error (.malformed "FruitReq" (.kind v.kind)) ↔
      v.kind = .null ∨ v.kind = .boolean ∨ v.kind = .number ∨ v.kind = .string) := by
  have happle : ∀ cultivar mealy,
      (fruitReq.decode v).outcome = .ok (.holding (.apple ⟨cultivar, mealy⟩)) ↔
        Pair "cultivar" "mealy" (.string cultivar) mealy v :=
    fun _ _ => fruitReq_decode_apple_iff.trans AppleReq.decode_iff
  have hbanana : ∀ length sweet,
      (fruitReq.decode v).outcome = .ok (.holding (.banana ⟨length, sweet⟩)) ↔
        ∃ n : Number, n.toDouble = length ∧ Pair "lengthCm" "sweet" (.number n) sweet v :=
    fun _ _ => fruitReq_decode_banana_iff.trans BananaReq.decode_iff
  refine ⟨happle, hbanana, ?_, ?_⟩
  · have hnone := Union.decode_eq_noMatch_iff (u := fruitReq) (v := v)
    refine hnone.trans (and_congr Kind.isContainer_eq_true_iff ⟨fun h => ⟨?_, ?_⟩, fun h a => ?_⟩)
    · intro cultivar mealy hpair
      exact h _ ((happle cultivar mealy).mpr hpair)
    · intro n sweet hpair
      exact h _ ((hbanana n.toDouble sweet).mpr ⟨n, rfl, hpair⟩)
    · intro ha
      cases a with
      | apple a => exact h.1 _ _ ((happle a.cultivar a.mealy).mp ha)
      | banana b =>
        obtain ⟨n, -, hpair⟩ := (hbanana b.lengthCm b.sweet).mp ha
        exact h.2 _ _ hpair
  · exact Union.decode_eq_malformed_iff.trans Kind.isContainer_eq_false_iff

/-- Members stand in any order, and an integer is a length. -/
example :
    let length : Json := .number (.integer (.ofInt64 3))
    (fruitReq.decode (.object [("sweet", .null), ("lengthCm", length)])).outcome =
      .ok (.holding (.banana ⟨Double.ofInt 3, none⟩)) := by
  rfl

end Untagged
