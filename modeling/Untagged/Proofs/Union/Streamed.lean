import Mathlib.Data.List.Forall2
import Untagged.Proofs.Json.Listed
import Untagged.Proofs.Union.Trial
import Untagged.Union.Streaming
import Untagged.Unions.Fruit

/-!
# Unions read from the text around them

A union that is the whole text is what decoding the text makes of it.  A list of
unions decodes each item before it looks at the text behind it, and still succeeds
exactly where the text is an array all of whose items decode (`decodeList_eq_ok_iff`):
both follow the items that are listed in the text.

Where an item fails, the list fails with the message of that item, whatever stands
behind it, and nothing behind it is tried (`decodeList_of_failing_item`).  So it is
enough that the text is well formed up to that item (`decodeList_cut`).
-/

namespace Untagged

open Json (Failure)
open Json.Reader (value sequence skipBlanks finish maxDepth Listed Stops)

namespace Union

variable {α : Type} {u : Union α}

theorem outcome_finish_eq_ok_iff {β : Type} {x y : β} {s : Bytes} :
    (Attempt.ofExcept (Json.Direct.ofGrammar (finish x s))).outcome = .ok y ↔
      x = y ∧ skipBlanks s = [] := by
  rw [← Json.Reader.finish_eq_ok_iff]
  show (finish x s).mapError Failure.fault = .ok y ↔ _
  cases finish x s with
  | ok z =>
    show Except.ok z = .ok y ↔ _
    rw [Except.ok.injEq, Except.ok.injEq]
  | error f => exact ⟨nofun, nofun⟩

theorem decodeText_eq_ok_iff {text : String} {x : OneOf α} :
    (u.decodeText text).outcome = .ok x ↔
      ∃ v, Json.ofText text = .ok v ∧ (u.decode v).outcome = .ok x := by
  rw [decodeText]
  cases Json.ofText text with
  | ok v =>
    show (u.decode v).outcome = .ok x ↔ _
    simp
  | error e =>
    show Except.error _ = _ ↔ _
    simp

/-- The union that is the whole text. -/
theorem decodeDirect_eq_ok_iff {text : String} {x : OneOf α} :
    (u.decodeDirect text).outcome = .ok x ↔ (u.decodeText text).outcome = .ok x := by
  rw [decodeText_eq_ok_iff, decodeDirect]
  simp only [Json.Reader.ofText_eq_ok_iff]
  cases hv : value maxDepth (Utf8.encode text) with
  | error f => simp
  | ok read =>
    obtain ⟨v, rest⟩ := read
    simp only [Attempt.outcome_andThen_eq_ok, Attempt.outcome_mapError_eq_ok,
      outcome_finish_eq_ok_iff]
    constructor
    · rintro ⟨y, hy, rfl, hrest⟩
      exact ⟨v, ⟨rest, rfl, hrest⟩, hy⟩
    · rintro ⟨w, ⟨rest', hw, hrest⟩, hx⟩
      cases hw
      exact ⟨x, hx, rfl, hrest⟩

/-! ## Items -/

/-- The item decodes. -/
def Decodes (u : Union α) (v : Json) (x : OneOf α) : Prop := (u.decode v).outcome = .ok x

section Steps

variable {fuel : Nat} {v : Json} {s t w r rest : Bytes} {c : UInt8}

theorem decodeItems_last (hv : value itemDepth s = .ok (v, t)) (hend : skipBlanks t = 93 :: rest) :
    u.decodeItems (fuel + 1) s = (u.decodeItem v t).andThen fun x => .succeed ([x], rest) := by
  rw [decodeItems, hv]
  simp only [hend, if_true]

theorem decodeItems_more (hv : value itemDepth s = .ok (v, t)) (hcomma : skipBlanks t = 44 :: w)
    (hnext : skipBlanks w = c :: r) (hc : c ≠ 93) :
    u.decodeItems (fuel + 1) s =
      (u.decodeItem v t).andThen fun x =>
        (u.decodeItems fuel (c :: r)).map fun p => (x :: p.1, p.2) := by
  rw [decodeItems, hv]
  simp only [hcomma, if_neg (show (44 : UInt8) ≠ 93 by decide), if_true, hnext, if_neg hc]

/-- An item that fails ends the list, whatever stands behind it. -/
theorem decodeItems_failing (hv : value itemDepth s = .ok (v, t)) {e : DecodeError}
    (he : (u.decode v).outcome = .error e) :
    u.decodeItems (fuel + 1) s =
      ⟨(u.decode v).log, .error (.rejected (.inner e) (Json.Direct.afterArray t))⟩ := by
  rw [decodeItems, hv]
  simp only [decodeItem, Attempt.andThen, Attempt.mapError, he, Except.mapError]

end Steps

theorem decodeItem_eq_ok_iff {v : Json} {rest : Bytes} {x : OneOf α} :
    (u.decodeItem v rest).outcome = .ok x ↔ (u.decode v).outcome = .ok x :=
  Attempt.outcome_mapError_eq_ok

theorem log_decodeItem (v : Json) (rest : Bytes) : (u.decodeItem v rest).log = (u.decode v).log :=
  rfl

theorem decodeItems_of_listed {vs : List Json} {s t rest : Bytes} {fuel : Nat}
    (h : Listed (value itemDepth) vs s t) (hend : skipBlanks t = 93 :: rest)
    (hfuel : s.length ≤ fuel) {xs : List (OneOf α)} (hxs : List.Forall₂ u.Decodes vs xs) :
    (u.decodeItems fuel s).outcome = .ok (xs, rest) := by
  induction h generalizing fuel xs with
  | @last v s t hv =>
    obtain ⟨k, rfl⟩ := (Listed.last hv).exists_fuel hfuel
    obtain ⟨x, _, hx, hnil, rfl⟩ := List.forall₂_cons_left_iff.mp hxs
    cases hnil
    rw [decodeItems_last hv hend, Attempt.outcome_andThen_eq_ok]
    exact ⟨x, decodeItem_eq_ok_iff.mpr hx, rfl⟩
  | @more v vs s t w r _ c hv hcomma hnext hc hvs ih =>
    obtain ⟨k, rfl⟩ := (Listed.more hv hcomma hnext hc hvs).exists_fuel hfuel
    obtain ⟨x, ys, hx, hys, rfl⟩ := List.forall₂_cons_left_iff.mp hxs
    have hlength := Json.Reader.length_of_more hv hcomma hnext
    rw [decodeItems_more hv hcomma hnext hc, Attempt.outcome_andThen_eq_ok]
    refine ⟨x, decodeItem_eq_ok_iff.mpr hx, ?_⟩
    rw [Attempt.outcome_map_eq_ok]
    exact ⟨_, ih hend (by omega) hys, rfl⟩

theorem listed_of_decodeItems {fuel : Nat} {s rest : Bytes} {xs : List (OneOf α)}
    (h : (u.decodeItems fuel s).outcome = .ok (xs, rest)) :
    ∃ vs t, Listed (value itemDepth) vs s t ∧ skipBlanks t = 93 :: rest ∧
      List.Forall₂ u.Decodes vs xs := by
  induction fuel generalizing s xs with
  | zero => cases h
  | succ fuel ih =>
    rw [decodeItems] at h
    cases hv : value itemDepth s with
    | error f =>
      rw [hv] at h
      cases h
    | ok read =>
      obtain ⟨v, t⟩ := read
      rw [hv] at h
      obtain ⟨x, hx, h⟩ := Attempt.outcome_andThen_eq_ok.mp h
      have hdecodes : u.Decodes v x := decodeItem_eq_ok_iff.mp hx
      cases ht : skipBlanks t with
      | nil =>
        rw [ht] at h
        cases h
      | cons b w =>
        rw [ht] at h
        by_cases hend : b = 93
        · simp only [if_pos hend] at h
          cases h
          exact ⟨[v], t, .last hv, by rw [ht, hend], .cons hdecodes .nil⟩
        simp only [if_neg hend] at h
        by_cases hcomma : b = 44
        · simp only [if_pos hcomma] at h
          cases hw : skipBlanks w with
          | nil =>
            rw [hw] at h
            cases h
          | cons c r =>
            rw [hw] at h
            by_cases hc : c = 93
            · simp only [if_pos hc] at h
              cases h
            simp only [if_neg hc] at h
            obtain ⟨⟨ys, t'⟩, hys, h⟩ := Attempt.outcome_map_eq_ok.mp h
            cases h
            obtain ⟨vs, t'', hvs, ht'', hdecoded⟩ := ih hys
            rw [hcomma] at ht
            exact ⟨v :: vs, t'', .more hv ht hw hc hvs, ht'', .cons hdecodes hdecoded⟩
        · simp only [if_neg hcomma] at h
          cases h

/-- Where the last of the items that are listed fails, and no other, the list fails
with it.  The items up to it have been tried. -/
theorem decodeItems_of_failing {vs : List Json} {v : Json} {s t : Bytes} {fuel : Nat}
    (h : Listed (value itemDepth) (vs ++ [v]) s t) (hfuel : s.length ≤ fuel)
    (hvs : ∀ w ∈ vs, ∃ x, u.Decodes w x) {e : DecodeError}
    (hv : (u.decode v).outcome = .error e) :
    u.decodeItems fuel s = ⟨(vs ++ [v]).flatMap fun w => (u.decode w).log,
      .error (.rejected (.inner e) (Json.Direct.afterArray t))⟩ := by
  induction vs generalizing s fuel with
  | nil =>
    obtain ⟨k, rfl⟩ := h.exists_fuel hfuel
    cases h with
    | last hread =>
      rw [decodeItems_failing hread hv]
      simp
    | more _ _ _ _ hrest => cases hrest
  | cons w ws ih =>
    obtain ⟨k, rfl⟩ := h.exists_fuel hfuel
    rw [List.cons_append] at h
    generalize hitems : ws ++ [v] = items at h
    cases h with
    | last => simp at hitems
    | @more _ _ _ t' w' r _ c hread hcomma hnext hc hrest =>
      subst hitems
      rw [List.forall_mem_cons] at hvs
      obtain ⟨⟨x, hx⟩, hvs⟩ := hvs
      have hlength := Json.Reader.length_of_more hread hcomma hnext
      have hitem : (u.decodeItem w t').outcome = .ok x := decodeItem_eq_ok_iff.mpr hx
      rw [decodeItems_more hread hcomma hnext hc, ih hrest (by omega) hvs, Attempt.andThen, hitem]
      simp only [log_decodeItem, Attempt.map, Except.map, List.cons_append, List.flatMap_cons]

/-! ## Lists -/

theorem decodeInside_eq_ok_iff {s rest : Bytes} {xs : List (OneOf α)} :
    (u.decodeInside s).outcome = .ok (xs, rest) ↔
      ∃ vs, sequence (value itemDepth) s = .ok (vs, rest) ∧ List.Forall₂ u.Decodes vs xs := by
  simp only [Json.Reader.sequence_eq_ok_iff Json.Reader.value_length_le]
  rw [decodeInside]
  cases hs : skipBlanks s with
  | nil => simp
  | cons b r =>
    by_cases hb : b = 93
    · subst hb
      simp only [if_true]
      constructor
      · intro h
        cases h
        exact ⟨[], .inl ⟨rfl, rfl⟩, .nil⟩
      · rintro ⟨vs, ⟨rfl, h⟩ | ⟨c, r', t, h, hc, -⟩, hxs⟩
        · cases h
          cases hxs
          rfl
        · exact absurd (List.cons.inj h).1.symm hc
    · simp only [if_neg hb]
      constructor
      · intro h
        obtain ⟨vs, t, hvs, ht, hxs⟩ := listed_of_decodeItems h
        exact ⟨vs, .inr ⟨b, r, t, rfl, hb, hvs, ht⟩, hxs⟩
      · rintro ⟨vs, ⟨-, h⟩ | ⟨c, r', t, h, hc, hvs, ht⟩, hxs⟩
        · exact absurd (List.cons.inj h).1 hb
        · cases h
          exact decodeItems_of_listed hvs ht (Nat.le_refl _) hxs

/-- A list is read exactly where the text is an array all of whose items decode. -/
theorem decodeList_eq_ok_iff {text : String} {xs : List (OneOf α)} :
    (u.decodeList text).outcome = .ok xs ↔
      ∃ vs, Json.ofText text = .ok (.array vs) ∧ List.Forall₂ u.Decodes vs xs := by
  simp only [Json.Reader.ofText_eq_ok_iff, show maxDepth = itemDepth + 1 from rfl,
    Json.Reader.value_array_iff]
  rw [decodeList]
  cases hs : skipBlanks (Utf8.encode text) with
  | nil => simp
  | cons b r =>
    by_cases hb : b = 91
    · subst hb
      simp only [if_true, Attempt.outcome_andThen_eq_ok, outcome_finish_eq_ok_iff]
      constructor
      · rintro ⟨⟨ys, rest⟩, hys, rfl, hrest⟩
        obtain ⟨vs, hvs, hdecoded⟩ := decodeInside_eq_ok_iff.mp hys
        exact ⟨vs, ⟨rest, ⟨r, rfl, hvs⟩, hrest⟩, hdecoded⟩
      · rintro ⟨vs, ⟨rest, ⟨r', hr, hvs⟩, hrest⟩, hdecoded⟩
        cases hr
        exact ⟨(xs, rest), decodeInside_eq_ok_iff.mpr ⟨vs, hvs, hdecoded⟩, rfl, hrest⟩
    · simp only [if_neg hb]
      refine ⟨nofun, ?_⟩
      rintro ⟨vs, ⟨rest, ⟨r', hr, -⟩, -⟩, -⟩
      exact absurd (List.cons.inj hr).1 hb

/-- Items that decode hold a variant. -/
theorem isHolding_of_decodes {vs : List Json} {xs : List (OneOf α)}
    (h : List.Forall₂ u.Decodes vs xs) : ∀ x ∈ xs, x.isHolding = true := by
  induction h with
  | nil => exact nofun
  | @cons v x vs xs hx _ ih =>
    obtain ⟨-, k, a, -, rfl⟩ := decode_eq_ok_iff.mp hx
    rw [List.forall_mem_cons]
    exact ⟨rfl, ih⟩

/-- An item that fails is reported by the list, and the items behind it are not
tried. -/
theorem decodeList_of_failing_item {text : String} {vs : List Json} {v : Json} {r r' t : Bytes}
    {c : UInt8} (hopen : skipBlanks (Utf8.encode text) = 91 :: r) (hfirst : skipBlanks r = c :: r')
    (hc : c ≠ 93) (hlisted : Listed (value itemDepth) (vs ++ [v]) (c :: r') t)
    (hvs : ∀ w ∈ vs, ∃ x, u.Decodes w x) {e : DecodeError}
    (hv : (u.decode v).outcome = .error e) :
    u.decodeList text = ⟨(vs ++ [v]).flatMap fun w => (u.decode w).log,
      .error (.rejected (.inner e) (Json.Direct.afterArray t))⟩ := by
  have hinside : u.decodeInside r = ⟨(vs ++ [v]).flatMap fun w => (u.decode w).log,
      .error (.rejected (.inner e) (Json.Direct.afterArray t))⟩ := by
    rw [decodeInside, hfirst]
    simp only [if_neg hc]
    exact decodeItems_of_failing hlisted (Nat.le_refl _) hvs hv
  rw [decodeList, hopen]
  simp only [if_true, hinside, Attempt.andThen]

/-- A list that is well formed up to an item that fails is reported with it, whatever
follows.  Up to the item the text is well formed when a bracket behind it makes an
array of it. -/
theorem decodeList_cut {q tail : String} {vs : List Json} {v : Json}
    (hq : Json.ofText (q ++ "]") = .ok (.array (vs ++ [v])))
    (htail : v.kind = .number → Stops (Utf8.encode tail))
    (hvs : ∀ w ∈ vs, ∃ x, u.Decodes w x) {e : DecodeError}
    (hv : (u.decode v).outcome = .error e) :
    ∃ rest, u.decodeList (q ++ tail) = ⟨(vs ++ [v]).flatMap fun w => (u.decode w).log,
      .error (.rejected (.inner e) rest)⟩ := by
  obtain ⟨r, c, r', t, hopen, hfirst, hc, hlisted⟩ := Json.Reader.listed_of_bracketed hq htail
  exact ⟨_, decodeList_of_failing_item hopen hfirst hc hlisted hvs hv⟩

/-- Reading a union from the text around it is decoding it: a text is read where its
value decodes, a list where the text is an array all of whose items do, and a list is
refused with the first item that does not, whatever stands behind it.  Only a number
could go on in what stands behind it. -/
theorem streamed_as_decoded (u : Union α) :
    (∀ text x, (u.decodeDirect text).outcome = .ok x ↔ (u.decodeText text).outcome = .ok x) ∧
    (∀ text xs, (u.decodeList text).outcome = .ok xs ↔
      ∃ vs, Json.ofText text = .ok (.array vs) ∧
        List.Forall₂ (fun v x => (u.decode v).outcome = .ok x) vs xs) ∧
    (∀ text xs, (u.decodeList text).outcome = .ok xs → ∀ x ∈ xs, x.isHolding = true) ∧
    ∀ (q tail : String) (vs : List Json) (v : Json) (e : DecodeError),
      Json.ofText (q ++ "]") = .ok (.array (vs ++ [v])) →
      (v.kind = .number → ∀ c ∈ tail.toList.head?,
        ¬ (c.isDigit = true ∨ c = '.' ∨ c = 'e' ∨ c = 'E')) →
      (∀ w ∈ vs, ∃ x, (u.decode w).outcome = .ok x) →
      (u.decode v).outcome = .error e →
      ∃ f position, (u.decodeList (q ++ tail)).outcome = .error f ∧
        f.message (Utf8.encode (q ++ tail)) = Json.located e.message position ∧
        (u.decodeList (q ++ tail)).log = (vs ++ [v]).flatMap fun w => (u.decode w).log := by
  refine ⟨fun text x => decodeDirect_eq_ok_iff, fun text xs => decodeList_eq_ok_iff,
    fun text xs hxs => ?_, fun q tail vs v e hq htail hvs hv => ?_⟩
  · obtain ⟨vs, -, hdecoded⟩ := decodeList_eq_ok_iff.mp hxs
    exact isHolding_of_decodes hdecoded
  · have hstops : v.kind = .number → Stops (Utf8.encode tail) :=
      fun hnumber => Json.Reader.stops_encode (htail hnumber)
    obtain ⟨rest, hlist⟩ := decodeList_cut hq hstops hvs hv
    rw [hlist]
    exact ⟨_, _, rfl, rfl, rfl⟩

/-- A number behind an apple is no fruit, and this is what the list reports although
the text goes wrong right behind it. -/
theorem number_behind_apple :
    let q := "[\x7b\"cultivar\":\"Fuji\"\x7d,5"
    let apple : Json := .object [("cultivar", .string "Fuji")]
    let five : Json := .number (.integer (.ofInt64 5))
    Json.ofText (q ++ "]") = .ok (.array ([apple] ++ [five])) ∧
    (fruitReq.decode apple).outcome = .ok (.holding (.apple ⟨"Fuji", none⟩)) ∧
    ∃ f position, (fruitReq.decodeList (q ++ ";")).outcome = .error f ∧
      f.message (Utf8.encode (q ++ ";")) =
        Json.located (DecodeError.malformed "FruitReq" (.kind .number)).message position := by
  intro q apple five
  obtain ⟨-, -, -, hcut⟩ := streamed_as_decoded fruitReq
  have hread : Json.ofText (q ++ "]") = .ok (.array ([apple] ++ [five])) := by rfl
  have happle : (fruitReq.decode apple).outcome = .ok (.holding (.apple ⟨"Fuji", none⟩)) := rfl
  have htail : ∀ c ∈ ";".toList.head?, ¬ (c.isDigit = true ∨ c = '.' ∨ c = 'e' ∨ c = 'E') := by
    simp
  have hfive : (fruitReq.decode five).outcome = .error (.malformed "FruitReq" (.kind .number)) :=
    rfl
  obtain ⟨f, position, hf, hmessage, -⟩ :=
    hcut q ";" [apple] five _ hread (fun _ => htail) (by simpa using ⟨_, happle⟩) hfive
  exact ⟨hread, happle, f, position, hf, hmessage⟩

end Union

end Untagged
