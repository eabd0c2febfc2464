import Untagged.Proofs.Run.Agreement
import Untagged.Proofs.Shape.Faults
import Untagged.Proofs.Unions.FruitGrammar

/-!
# Why a fruit request is refused

An apple and a banana are pairs, so each of them refuses a value for its first fault.  A
fruit request tells the reason of every variant that it tries in vain: of the apple for
each body that is no apple, and of the banana for those that are neither
(`Union.rejected_mem_firstMatch_cons_iff`).
-/

namespace Untagged

variable {v : Json} {e : Rejection}

/-- The reason for which a value is no apple. -/
def AppleReq.Fault : Json → Rejection → Prop :=
  PairFault "AppleReq" "cultivar" "mealy" .string .string

/-- The reason for which a value is no banana. -/
def BananaReq.Fault : Json → Rejection → Prop :=
  PairFault "BananaReq" "lengthCm" "sweet" .number .double

theorem AppleReq.decode_eq_error_iff (hv : (v.members.map Prod.fst).Nodup) :
    (AppleReq.record.decode v).outcome = .error e ↔ AppleReq.Fault v e :=
  AppleReq.isPair.decode_eq_error_iff Shape.string_expectsKind hv

theorem BananaReq.decode_eq_error_iff (hv : (v.members.map Prod.fst).Nodup) :
    (BananaReq.record.decode v).outcome = .error e ↔ BananaReq.Fault v e :=
  BananaReq.isPair.decode_eq_error_iff Shape.double_expectsKind hv

namespace Union

variable {α : Type}

/-- The rejections that a trial tells are that of its first candidate, if this one rejects
the value, and then those of the trial with the others. -/
theorem rejected_mem_firstMatch_cons_iff {name variant : String} {c : Candidate α}
    {cs : List (Candidate α)} (hquiet : (c.decode v).log = []) :
    .rejected name variant e ∈ (firstMatch name v (c :: cs)).1 ↔
      (c.name = variant ∧ (c.decode v).outcome = .error e) ∨
        (c.Rejects v ∧ .rejected name variant e ∈ (firstMatch name v cs).1) := by
  rcases c.rejects_or_accepts v with ⟨r, hr⟩ | ⟨a, ha⟩
  · have hrejects : c.Rejects v := ⟨r, hr⟩
    rw [firstMatch_cons_of_rejects hr, hquiet, hr, and_iff_right hrejects, List.nil_append,
      List.mem_cons, Event.rejected.injEq, Except.error.injEq]
    simp only [true_and, eq_comm]
  · have hrejects : ¬ c.Rejects v := ha.not_rejects
    rw [firstMatch_cons_of_accepts ha, hquiet, ha]
    simp [hrejects]

/-- Decoding tells the rejections of the trial, where there is one. -/
theorem rejected_mem_decode_iff {u : Union α} {name variant : String} :
    .rejected name variant e ∈ (u.decode v).log ↔
      v.kind.isContainer = true ∧
        .rejected name variant e ∈ (firstMatch u.name v u.candidates).1 := by
  have hscan : Event.rejected name variant e ∉ scanned v := by
    cases v <;> simp [scanned]
  by_cases hv : v.kind.isContainer = true
  · rw [decode, decodeInspecting, if_pos hv, and_iff_right hv]
    cases hfound : (firstMatch u.name v u.candidates).2 <;>
      simp [hfound, log_scanDocument, hscan]
  · rw [decode_of_scalar (Bool.eq_false_iff.mpr hv), iff_false_right fun h => hv h.1]
    exact List.not_mem_nil

end Union

/-- Both fruits refuse a value for its first fault, and only then.  The request tells the
reason of the apple for every object and every array that is no apple, and the reason of
the banana for those that are no banana either. -/
theorem fruit_candidates_refuse_for_first_fault (body : Json.Body) (e : Rejection) :
    let v := body.value
    ((AppleReq.record.decode v).outcome = .error e ↔ AppleReq.Fault v e) ∧
    ((BananaReq.record.decode v).outcome = .error e ↔ BananaReq.Fault v e) ∧
    (.rejected "FruitReq" "AppleReq" e ∈ (fruitReq.decode v).log ↔
      v.kind.isContainer = true ∧ AppleReq.Fault v e) ∧
    (.rejected "FruitReq" "BananaReq" e ∈ (fruitReq.decode v).log ↔
      v.kind.isContainer = true ∧ (∃ r, AppleReq.Fault v r) ∧ BananaReq.Fault v e) := by
  intro v
  have hv : (v.members.map Prod.fst).Nodup := body.nodup
  have happle : ∀ r, (AppleReq.record.decode v).outcome = .error r ↔ AppleReq.Fault v r :=
    fun _ => AppleReq.decode_eq_error_iff hv
  have hbanana := BananaReq.decode_eq_error_iff (e := e) hv
  have htold : ∀ variant, .rejected "FruitReq" variant e ∈ (fruitReq.decode v).log ↔
      v.kind.isContainer = true ∧ (("AppleReq" = variant ∧ AppleReq.Fault v e) ∨
        ((∃ r, AppleReq.Fault v r) ∧ "BananaReq" = variant ∧ BananaReq.Fault v e)) := by
    intro variant
    rw [Union.rejected_mem_decode_iff]
    refine and_congr_right fun _ => ?_
    refine (Union.rejected_mem_firstMatch_cons_iff (log_fruit_candidate (.head _) v)).trans ?_
    refine or_congr (and_congr_right fun _ => Attempt.outcome_map_eq_error.trans (happle e))
      (and_congr (Candidate.ofShape_rejects_iff.trans (exists_congr happle)) ?_)
    refine (Union.rejected_mem_firstMatch_cons_iff
      (log_fruit_candidate (.tail _ (.head _)) v)).trans ?_
    -- Behind the banana there is no candidate left.
    rw [or_iff_left fun h => List.not_mem_nil h.2]
    exact and_congr_right fun _ => Attempt.outcome_map_eq_error.trans hbanana
  refine ⟨happle e, hbanana, (htold "AppleReq").trans ?_, (htold "BananaReq").trans ?_⟩
  · simp
  · simp

/-- The first member is at fault for either fruit, so neither reports the unknown second
one or that the required one is missing. -/
theorem fruit_with_several_faults :
    let v : Json := .object [("sweet", .string "no"), ("color", .string "red")]
    (AppleReq.record.decode v).outcome = .error (.unknownField "sweet" ["cultivar", "mealy"]) ∧
    (BananaReq.record.decode v).outcome = .error (.invalidType (.string "no") .boolean) ∧
    .rejected "FruitReq" "BananaReq" (.invalidType (.string "no") .boolean) ∈
      (fruitReq.decode v).log := by
  intro v
  let body : Json.Body := ⟨v, by decide⟩
  have happle : AppleReq.Fault v (.unknownField "sweet" ["cultivar", "mealy"]) :=
    .member (.head (.unknown (by decide) (by decide)))
  have hbanana : BananaReq.Fault v (.invalidType (.string "no") .boolean) :=
    .member (.head (.flag nofun nofun))
  obtain ⟨happles, -⟩ := fruit_candidates_refuse_for_first_fault body
    (.unknownField "sweet" ["cultivar", "mealy"])
  obtain ⟨-, hbananas, -, htold⟩ := fruit_candidates_refuse_for_first_fault body
    (.invalidType (.string "no") .boolean)
  exact ⟨happles.mpr happle, hbananas.mpr hbanana, htold.mpr ⟨rfl, ⟨_, happle⟩, hbanana⟩⟩

end Untagged
