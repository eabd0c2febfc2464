import Untagged.Proofs.Union.Declared

/-!
# The first acceptance decides

The contract of decoding.  A scalar is malformed.  An object or an array becomes
the variant of the first candidate in declared order that accepts it, the
candidates behind that one having no part in it, and matches nothing exactly when
all candidates reject it.  The value returned holds a variant, of the name of the
candidate that made it.
-/

namespace Untagged.Union

variable {α σ : Type}

/-- What decoding makes of a value. -/
structure DecodesFirst (u : Union α) (inspect : String → Json → σ → σ) (s : σ) (v : Json) :
    Prop where
  /-- A hook has no part in it. -/
  hook : (u.decodeInspecting inspect v s).2 = u.decode v
  malformed_iff : ∀ name found, (u.decode v).outcome = .error (.malformed name found) ↔
    (v.kind = .null ∨ v.kind = .boolean ∨ v.kind = .number ∨ v.kind = .string) ∧
      name = u.name ∧ found = .kind v.kind
  ok_iff : ∀ x, (u.decode v).outcome = .ok x ↔
    (v.kind = .object ∨ v.kind = .array) ∧
      ∃ k a, FirstAccepts u.candidates v k a ∧ x = .holding a
  noMatch_iff : ∀ name tried, (u.decode v).outcome = .error (.noMatch name tried) ↔
    (v.kind = .object ∨ v.kind = .array) ∧ (∀ c ∈ u.candidates, c.Rejects v) ∧
      name = u.name ∧ tried = u.candidates.map Candidate.name
  /-- The candidates behind the first that accepts have no part in it. -/
  later : ∀ k a, FirstAccepts u.candidates v k a → ∀ later,
    ({ u with candidates := u.candidates.take (k + 1) ++ later } : Union α).decode v = u.decode v
  /-- The value has the name of the candidate that made it. -/
  named : ∀ alternatives, u.DeclaredBy alternatives → ∀ x, (u.decode v).outcome = .ok x →
    ∃ k c a, FirstAccepts u.candidates v k a ∧ u.candidates[k]? = some c ∧
      x = .holding a ∧ u.variantName? x = some c.name
  /-- None of the ways into a union returns a value that holds nothing, or fails for
  findings. -/
  settled : ∀ (text : String) (bytes : Bytes) (stream : Json.Stream),
    Settled (u.decodeText text).outcome ∧ Settled (u.decodeBytes bytes).outcome ∧
      Settled (u.decodeStream stream).outcome ∧ Settled (u.decode v).outcome

/-- The first candidate that accepts a value decides what it is decoded to. -/
theorem decodes_as_first_acceptance (u : Union α) (inspect : String → Json → σ → σ) (s : σ)
    (v : Json) : u.DecodesFirst inspect s v where
  hook := u.decodeInspecting_snd inspect v s
  malformed_iff name found := by
    rw [decode_eq_error_iff, Kind.isContainer_eq_false_iff]
    simp only [DecodeError.malformed.injEq, reduceCtorEq, and_false, or_false]
  ok_iff x := by rw [decode_eq_ok_iff, Kind.isContainer_eq_true_iff]
  noMatch_iff name tried := by
    rw [decode_eq_error_iff, Kind.isContainer_eq_true_iff]
    simp only [DecodeError.noMatch.injEq, reduceCtorEq, and_false, false_or, names]
  later k a h later := decode_take_append h later
  named alternatives hd x hx := by
    obtain ⟨-, k, a, hk, rfl⟩ := decode_eq_ok_iff.mp hx
    obtain ⟨c, hc, ha⟩ := hk.accepts
    refine ⟨k, c, a, hk, hc, rfl, ?_⟩
    have hname := hd.variantName_of_accepts (List.mem_of_getElem? hc) ha
    simp only [variantName?, OneOf.variant?, Option.map_some, hname]
  settled text bytes stream :=
    ⟨settled_decodeRead u _, settled_decodeRead u _, settled_decodeRead u _, settled_decode u v⟩

/-- A document whose length is an integer passes the apples by and is a banana. -/
theorem banana_as_first_acceptance :
    let v : Json := .object [("lengthCm", .number (.integer (.ofInt64 3)))]
    let b : FruitVariant := .banana ⟨Double.ofInt 3, none⟩
    FirstAccepts fruitReq.candidates v 1 b ∧
    (∀ later, ({ fruitReq with candidates := fruitReq.candidates.take 2 ++ later } :
      Union FruitVariant).decode v = fruitReq.decode v) ∧
    fruitReq.variantName? (.holding b) = some "BananaReq" := by
  intro v b
  have hb : FirstAccepts fruitReq.candidates v 1 b := by
    refine .behind ⟨.unknownField "lengthCm" ["cultivar", "mealy"], rfl⟩ (.head ?_)
    rfl
  have hfirst := decodes_as_first_acceptance fruitReq (fun _ _ (n : Nat) => n + 1) 0 v
  refine ⟨hb, hfirst.later 1 b hb, ?_⟩
  have hx := (hfirst.ok_iff (.holding b)).mpr ⟨.inl rfl, 1, b, hb, rfl⟩
  obtain ⟨k, c, a, hk, hc, -, hn⟩ := hfirst.named _ fruitReq_declared _ hx
  obtain ⟨rfl, -⟩ := hb.unique hk
  rw [hn]
  cases hc
  rfl

end Untagged.Union
