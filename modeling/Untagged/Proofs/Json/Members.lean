import Untagged.Proofs.Json.Consumed

/-!
# Distinct names

A value is distinct when no object in it, at any depth, has two members of one
name.  Then looking up a name finds the member of that name and no other
(`lookup?_eq_some_iff`).

Every value that is read is distinct (`distinct_of_ofText`), although a document
may repeat a name: collecting the members of an object keeps one member for each
name, whatever the members are.  `Document` carries this along with the value, and
`Body` what is needed of it where only the members of the value itself are looked at.
-/

namespace Untagged

namespace Json

/-! ## Looking up a name -/

theorem lookup?_eq_none_iff {name : String} {ms : List (String × Json)} :
    lookup? name ms = none ↔ name ∉ ms.map Prod.fst := by
  induction ms with
  | nil => simp [lookup?]
  | cons m ms ih =>
    obtain ⟨n, v⟩ := m
    rw [lookup?, List.map_cons, List.mem_cons, not_or]
    by_cases hn : n = name
    · simp [hn]
    · rw [if_neg hn, ih]
      exact ⟨fun h => ⟨Ne.symm hn, h⟩, fun h => h.2⟩

theorem mem_of_lookup? {name : String} {v : Json} {ms : List (String × Json)}
    (h : lookup? name ms = some v) : (name, v) ∈ ms := by
  induction ms with
  | nil => cases h
  | cons m ms ih =>
    obtain ⟨n, w⟩ := m
    rw [lookup?] at h
    by_cases hn : n = name
    · rw [if_pos hn] at h
      cases h
      rw [hn]
      exact .head _
    · rw [if_neg hn] at h
      exact .tail _ (ih h)

theorem lookup?_eq_some_iff {ms : List (String × Json)} (h : (ms.map Prod.fst).Nodup)
    {name : String} {v : Json} : lookup? name ms = some v ↔ (name, v) ∈ ms := by
  refine ⟨mem_of_lookup?, fun hmem => ?_⟩
  induction ms with
  | nil => cases hmem
  | cons m ms ih =>
    obtain ⟨n, w⟩ := m
    rw [List.map_cons, List.nodup_cons] at h
    rw [lookup?]
    rcases List.mem_cons.mp hmem with heq | hmem
    · cases heq
      rw [if_pos rfl]
    · have hname : name ∈ ms.map Prod.fst := List.mem_map.mpr ⟨_, hmem, rfl⟩
      have hne : n ≠ name := fun heq => h.1 (heq ▸ hname)
      rw [if_neg hne, ih h.2 hmem]

/-! ## Values with distinct names -/

mutual

/-- The names of an object are distinct, at every depth. -/
def Distinct : Json → Prop
  | array items => DistinctItems items
  | object members => (members.map Prod.fst).Nodup ∧ DistinctMembers members
  | _ => True

def DistinctItems : List Json → Prop
  | [] => True
  | v :: vs => v.Distinct ∧ DistinctItems vs

def DistinctMembers : List (String × Json) → Prop
  | [] => True
  | (_, v) :: ms => v.Distinct ∧ DistinctMembers ms

end

theorem distinctItems_iff {vs : List Json} : DistinctItems vs ↔ ∀ v ∈ vs, v.Distinct := by
  induction vs with
  | nil => simp [DistinctItems]
  | cons v vs ih => rw [DistinctItems, ih, List.forall_mem_cons]

theorem distinctMembers_iff {ms : List (String × Json)} :
    DistinctMembers ms ↔ ∀ m ∈ ms, m.2.Distinct := by
  induction ms with
  | nil => simp [DistinctMembers]
  | cons m ms ih => rw [DistinctMembers, ih, List.forall_mem_cons]

theorem distinct_object_iff {ms : List (String × Json)} :
    (object ms).Distinct ↔ (ms.map Prod.fst).Nodup ∧ ∀ m ∈ ms, m.2.Distinct := by
  rw [Distinct, distinctMembers_iff]

/-- A value with distinct names at every depth, as every value that is read is. -/
structure Document where
  value : Json
  distinct : value.Distinct

/-- A value with distinct names among its own members.  Objects inside of it may repeat
names. -/
structure Body where
  value : Json
  nodup : (value.members.map Prod.fst).Nodup

/-! ## Collected members -/

theorem mem_insertMember {name : String} {value : Json} {ms : List (String × Json)}
    {m : String × Json} (h : m ∈ insertMember name value ms) : m = (name, value) ∨ m ∈ ms := by
  induction ms with
  | nil => exact .inl (List.mem_singleton.mp h)
  | cons p ms ih =>
    obtain ⟨n, v⟩ := p
    rw [insertMember] at h
    by_cases hn : n = name
    · rw [if_pos hn, hn] at h
      rcases List.mem_cons.mp h with h | h
      · exact .inl h
      · exact .inr (.tail _ h)
    · rw [if_neg hn] at h
      rcases List.mem_cons.mp h with h | h
      · exact .inr (h ▸ .head _)
      · rcases ih h with h | h
        · exact .inl h
        · exact .inr (.tail _ h)

theorem nodup_insertMember {name : String} {value : Json} {ms : List (String × Json)}
    (h : (ms.map Prod.fst).Nodup) : ((insertMember name value ms).map Prod.fst).Nodup := by
  induction ms with
  | nil => exact List.nodup_cons.mpr ⟨List.not_mem_nil, List.nodup_nil⟩
  | cons p ms ih =>
    obtain ⟨n, v⟩ := p
    rw [insertMember]
    by_cases hn : n = name
    · rw [if_pos hn]
      exact h
    · rw [if_neg hn]
      rw [List.map_cons, List.nodup_cons] at h ⊢
      refine ⟨fun hmem => ?_, ih h.2⟩
      obtain ⟨m, hm, hname⟩ := List.mem_map.mp hmem
      rcases mem_insertMember hm with rfl | hm
      · exact hn hname.symm
      · exact h.1 (hname ▸ List.mem_map_of_mem hm)

/-- Whatever is kept of the members of a document is kept of those collected. -/
theorem distinct_collect {pairs : List (String × Json)} (h : ∀ p ∈ pairs, p.2.Distinct) :
    (object (collect pairs)).Distinct := by
  have go (done : List (String × Json)) (hdone : (object done).Distinct) :
      (object (pairs.foldl (fun ms p => insertMember p.1 p.2 ms) done)).Distinct := by
    induction pairs generalizing done with
    | nil => exact hdone
    | cons p pairs ih =>
      rw [List.forall_mem_cons] at h
      rw [List.foldl_cons]
      refine ih h.2 (insertMember p.1 p.2 done) ?_
      rw [distinct_object_iff] at hdone ⊢
      refine ⟨nodup_insertMember hdone.1, fun m hm => ?_⟩
      rcases mem_insertMember hm with rfl | hm
      · exact h.1
      · exact hdone.2 m hm
  exact go [] ⟨List.nodup_nil, trivial⟩

end Json

/-! ## Values that are read -/

namespace Json.Reader

section

variable {α : Type} {item : Bytes → Except Fault (Read α)} {P : α → Prop}

theorem itemsAfter_forall (hitem : ∀ s x rest, item s = .ok (x, rest) → P x) {fuel : Nat}
    {s rest : Bytes} {xs : List α} (h : itemsAfter item fuel s = .ok (xs, rest)) :
    ∀ x ∈ xs, P x := by
  induction fuel generalizing s xs with
  | zero => cases h
  | succ fuel ih =>
    rw [itemsAfter] at h
    split at h
    · cases h
    split at h
    · cases h
      exact List.forall_mem_nil P
    split at h
    · split at h
      · cases h
      split at h
      · cases h
      simp only [bind_eq_ok] at h
      obtain ⟨⟨x, t⟩, hx, ⟨ys, t'⟩, hys, h⟩ := h
      cases h
      exact List.forall_mem_cons.mpr ⟨hitem _ _ _ hx, ih hys⟩
    · cases h

theorem sequence_forall (hitem : ∀ s x rest, item s = .ok (x, rest) → P x) {s rest : Bytes}
    {xs : List α} (h : sequence item s = .ok (xs, rest)) : ∀ x ∈ xs, P x := by
  rw [sequence] at h
  split at h
  · cases h
  split at h
  · cases h
    exact List.forall_mem_nil P
  simp only [bind_eq_ok] at h
  obtain ⟨⟨x, t⟩, hx, ⟨ys, t'⟩, hys, h⟩ := h
  cases h
  exact List.forall_mem_cons.mpr ⟨hitem _ _ _ hx, itemsAfter_forall hitem hys⟩

theorem member_forall (hitem : ∀ s x rest, item s = .ok (x, rest) → P x) {s rest : Bytes}
    {m : String × α} (h : member item s = .ok (m, rest)) : P m.2 := by
  simp only [member, bind_eq_ok] at h
  obtain ⟨⟨name, t⟩, -, t', -, ⟨x, t''⟩, hx, h⟩ := h
  cases h
  exact hitem _ _ _ hx

theorem membersAfter_forall (hitem : ∀ s x rest, item s = .ok (x, rest) → P x) {fuel : Nat}
    {s rest : Bytes} {ms : List (String × α)}
    (h : membersAfter item fuel s = .ok (ms, rest)) : ∀ m ∈ ms, P m.2 := by
  induction fuel generalizing s ms with
  | zero => cases h
  | succ fuel ih =>
    rw [membersAfter] at h
    split at h
    · cases h
    split at h
    · cases h
      exact List.forall_mem_nil _
    split at h
    · split at h
      · cases h
      split at h
      · simp only [bind_eq_ok] at h
        obtain ⟨⟨m, t⟩, hm, ⟨ns, t'⟩, hns, h⟩ := h
        cases h
        exact List.forall_mem_cons.mpr ⟨member_forall hitem hm, ih hns⟩
      · split at h <;> cases h
    · cases h

theorem membership_forall (hitem : ∀ s x rest, item s = .ok (x, rest) → P x) {s rest : Bytes}
    {ms : List (String × α)} (h : membership item s = .ok (ms, rest)) : ∀ m ∈ ms, P m.2 := by
  rw [membership] at h
  split at h
  · cases h
  split at h
  · cases h
    exact List.forall_mem_nil _
  split at h
  · simp only [bind_eq_ok] at h
    obtain ⟨⟨m, t⟩, hm, ⟨ns, t'⟩, hns, h⟩ := h
    cases h
    exact List.forall_mem_cons.mpr ⟨member_forall hitem hm, membersAfter_forall hitem hns⟩
  · cases h

end

theorem distinct_of_valueOver {inner : Option (Bytes → Except Fault (Read Json))}
    (hinner : ∀ item, inner = some item → ∀ s v rest, item s = .ok (v, rest) → v.Distinct)
    {s rest : Bytes} {v : Json} (h : valueOver inner s = .ok (v, rest)) : v.Distinct := by
  rw [valueOver] at h
  split at h
  · cases h
  split at h
  · obtain ⟨t, -, h⟩ := bind_eq_ok.mp h
    cases h
    exact trivial
  split at h
  · obtain ⟨t, -, h⟩ := bind_eq_ok.mp h
    cases h
    exact trivial
  split at h
  · obtain ⟨t, -, h⟩ := bind_eq_ok.mp h
    cases h
    exact trivial
  split at h
  · obtain ⟨⟨n, t⟩, -, h⟩ := bind_eq_ok.mp h
    cases h
    exact trivial
  split at h
  · obtain ⟨⟨n, t⟩, -, h⟩ := bind_eq_ok.mp h
    cases h
    exact trivial
  split at h
  · obtain ⟨⟨text, t⟩, -, h⟩ := bind_eq_ok.mp h
    cases h
    exact trivial
  split at h
  · split at h
    · cases h
    next item =>
      obtain ⟨⟨items, t⟩, hitems, h⟩ := bind_eq_ok.mp h
      cases h
      exact distinctItems_iff.mpr
        (sequence_forall (hinner item rfl) (inContainer_eq_ok.mp hitems))
  split at h
  · split at h
    · cases h
    next item =>
      obtain ⟨⟨pairs, t⟩, hpairs, h⟩ := bind_eq_ok.mp h
      cases h
      exact distinct_collect (membership_forall (hinner item rfl) (inContainer_eq_ok.mp hpairs))
  · cases h

theorem distinct_of_value {depth : Nat} {s rest : Bytes} {v : Json}
    (h : value depth s = .ok (v, rest)) : v.Distinct := by
  induction depth generalizing s rest v with
  | zero => exact distinct_of_valueOver (fun _ hi => by cases hi) h
  | succ depth ih =>
    refine distinct_of_valueOver (fun item hi s' w rest' hw => ?_) h
    cases hi
    exact ih hw

theorem distinct_of_document {s : Bytes} {v : Json} (h : document s = .ok v) : v.Distinct := by
  rw [document, documentWithin, bind_eq_ok] at h
  obtain ⟨⟨w, rest⟩, hw, h⟩ := h
  simp only [finish] at h
  split at h
  · cases h
    exact distinct_of_value hw
  · cases h

end Json.Reader

theorem Json.distinct_of_ofText {text : String} {v : Json} (h : Json.ofText text = .ok v) :
    v.Distinct := by
  rw [Json.ofText] at h
  cases hd : Reader.document (Utf8.encode text) with
  | ok w =>
    rw [hd] at h
    cases h
    exact Reader.distinct_of_document hd
  | error f =>
    rw [hd] at h
    cases h

end Untagged
