import Mathlib.Data.List.Induction
import Untagged.Proofs.Json.Listed
import Untagged.Proofs.Json.Members

/-!
# The members of an object, one after the other

A text of an object has members in text order, and a name may stand there more than
once (`ObjectText`).  What is read of it are the members collected: every name once,
where it stands first, with the value that stands last (`ofText_object_iff`,
`map_fst_collect`, `mem_collect_iff`).

Members are listed in the text as items are, so `Listed` serves for them too; only the
closing brace and the quote that starts a name are different.
-/

namespace Untagged.Json

/-! ## Collecting -/

theorem collect_concat (pairs : List (String × Json)) (p : String × Json) :
    collect (pairs ++ [p]) = insertMember p.1 p.2 (collect pairs) := by
  rw [collect, List.foldl_append]
  rfl

/-- A name that is there already stays in its place, and another one comes last. -/
theorem map_fst_insertMember (name : String) (value : Json) (ms : List (String × Json)) :
    (insertMember name value ms).map Prod.fst =
      if name ∈ ms.map Prod.fst then ms.map Prod.fst else ms.map Prod.fst ++ [name] := by
  induction ms with
  | nil => rfl
  | cons m ms ih =>
    obtain ⟨n, v⟩ := m
    rw [insertMember]
    by_cases hn : n = name
    · rw [if_pos hn, List.map_cons, List.map_cons, if_pos (List.mem_cons.mpr (.inl hn.symm))]
    · rw [if_neg hn, List.map_cons, ih, List.map_cons]
      by_cases hname : name ∈ ms.map Prod.fst
      · rw [if_pos hname, if_pos (List.mem_cons_of_mem n hname)]
      · have hcons : name ∉ n :: ms.map Prod.fst := by
          rw [List.mem_cons]
          exact not_or_intro (Ne.symm hn) hname
        rw [if_neg hname, if_neg hcons]
        rfl

theorem mem_insertMember_iff {name : String} {value : Json} {ms : List (String × Json)}
    (h : (ms.map Prod.fst).Nodup) {m : String × Json} :
    m ∈ insertMember name value ms ↔ m = (name, value) ∨ (m ∈ ms ∧ m.1 ≠ name) := by
  induction ms with
  | nil => simp [insertMember]
  | cons p ms ih =>
    obtain ⟨n, v⟩ := p
    rw [List.map_cons, List.nodup_cons] at h
    rw [insertMember]
    by_cases hn : n = name
    · -- The first member gives way, and no other one has its name.
      subst hn
      have hothers : m ∈ ms → m.1 ≠ n := by
        intro hm hname
        have hmem : m.1 ∈ ms.map Prod.fst := List.mem_map_of_mem hm
        exact h.1 (hname ▸ hmem)
      rw [if_pos rfl, List.mem_cons, List.mem_cons]
      constructor
      · intro hm
        rcases hm with rfl | hm
        · exact .inl rfl
        · exact .inr ⟨.inr hm, hothers hm⟩
      · intro hm
        rcases hm with rfl | ⟨rfl | hm, hname⟩
        · exact .inl rfl
        · exact absurd rfl hname
        · exact .inr hm
    · rw [if_neg hn, List.mem_cons, ih h.2, List.mem_cons]
      constructor
      · intro hm
        rcases hm with rfl | rfl | ⟨hm, hname⟩
        · exact .inr ⟨.inl rfl, hn⟩
        · exact .inl rfl
        · exact .inr ⟨.inr hm, hname⟩
      · intro hm
        rcases hm with rfl | ⟨rfl | hm, hname⟩
        · exact .inr (.inl rfl)
        · exact .inl rfl
        · exact .inr (.inr ⟨hm, hname⟩)

/-- The collected names are the names of the document without the repeats, in the order
in which each stands first. -/
theorem map_fst_collect (pairs : List (String × Json)) :
    (collect pairs).map Prod.fst = (pairs.map Prod.fst).eraseDups := by
  induction pairs using List.reverseRecOn with
  | nil => rfl
  | append_singleton pairs p ih =>
    have hlast : ([p.1].removeAll (pairs.map Prod.fst)).eraseDups =
        if p.1 ∈ (pairs.map Prod.fst).eraseDups then [] else [p.1] := by
      by_cases hp : p.1 ∈ pairs.map Prod.fst
      · simp [List.removeAll, List.mem_eraseDups, hp]
      · simp [List.removeAll, List.mem_eraseDups, List.eraseDups_cons, hp]
    rw [collect_concat, map_fst_insertMember, ih, List.map_append, List.map_singleton,
      List.eraseDups_append, hlast]
    by_cases hp : p.1 ∈ (pairs.map Prod.fst).eraseDups
    · rw [if_pos hp, if_pos hp, List.append_nil]
    · rw [if_neg hp, if_neg hp]

theorem nodup_collect (pairs : List (String × Json)) :
    ((collect pairs).map Prod.fst).Nodup := by
  induction pairs using List.reverseRecOn with
  | nil => exact List.nodup_nil
  | append_singleton pairs p ih =>
    rw [collect_concat]
    exact nodup_insertMember ih

/-- The member is one of the list, and none behind it has its name. -/
def IsLast (pairs : List (String × Json)) (m : String × Json) : Prop :=
  ∃ before after, pairs = before ++ m :: after ∧ m.1 ∉ after.map Prod.fst

theorem isLast_concat_iff {pairs : List (String × Json)} {p m : String × Json} :
    IsLast (pairs ++ [p]) m ↔ m = p ∨ (IsLast pairs m ∧ m.1 ≠ p.1) := by
  constructor
  · intro h
    obtain ⟨before, after, heq, hafter⟩ := h
    rcases List.eq_nil_or_concat after with rfl | ⟨after, q, rfl⟩
    · obtain ⟨-, hm⟩ := List.append_inj' heq rfl
      exact .inl (List.cons.inj hm).1.symm
    · rw [List.concat_eq_append, ← List.cons_append, ← List.append_assoc] at heq
      obtain ⟨hpairs, hq⟩ := List.append_inj' heq rfl
      obtain rfl : p = q := (List.cons.inj hq).1
      rw [List.concat_eq_append, List.map_append, List.mem_append, not_or] at hafter
      refine .inr ⟨⟨before, after, hpairs, hafter.1⟩, fun hname => hafter.2 ?_⟩
      exact hname ▸ List.mem_singleton_self p.1
  · intro h
    rcases h with rfl | ⟨⟨before, after, rfl, hafter⟩, hname⟩
    · exact ⟨pairs, [], rfl, List.not_mem_nil⟩
    · refine ⟨before, after ++ [p], by simp, ?_⟩
      rw [List.map_append, List.mem_append, not_or]
      exact ⟨hafter, fun hmem => hname (List.mem_singleton.mp hmem)⟩

/-- Of the members of one name the last is collected. -/
theorem mem_collect_iff {pairs : List (String × Json)} {m : String × Json} :
    m ∈ collect pairs ↔ IsLast pairs m := by
  induction pairs using List.reverseRecOn with
  | nil =>
    constructor
    · intro h
      cases h
    · intro h
      obtain ⟨before, after, heq, -⟩ := h
      simp at heq
  | append_singleton pairs p ih =>
    rw [collect_concat, mem_insertMember_iff (nodup_collect pairs), ih, isLast_concat_iff]

end Untagged.Json

namespace Untagged.Json.Reader

variable {α : Type} {item : Bytes → Except Fault (Read α)}

/-! ## Objects -/

/-- A member of an object, with the opening quote of its name. -/
def entry (item : Bytes → Except Fault (Read α)) : Bytes → Except Fault (Read (String × α))
  | [] => .error (.ahead .eofObject [])
  | b :: r => if b = 34 then member item r else .error (.ahead .keyNotString (b :: r))

theorem entry_eq_ok_iff {s rest : Bytes} {m : String × α} :
    entry item s = .ok (m, rest) ↔ ∃ r, s = 34 :: r ∧ member item r = .ok (m, rest) := by
  cases s with
  | nil =>
    constructor
    · intro h
      cases h
    · intro h
      obtain ⟨r, hr, -⟩ := h
      cases hr
  | cons b r =>
    rw [entry]
    by_cases hb : b = 34
    · subst hb
      rw [if_pos rfl]
      constructor
      · intro h
        exact ⟨r, rfl, h⟩
      · intro h
        obtain ⟨r', hr, h⟩ := h
        cases hr
        exact h
    · rw [if_neg hb]
      constructor
      · intro h
        cases h
      · intro h
        obtain ⟨r', hr, -⟩ := h
        exact absurd (List.cons.inj hr).1 hb

theorem entry_length_le_of_passes (hitem : ∀ s x rest, item s = .ok (x, rest) → Passes s rest) :
    ∀ s m rest, entry item s = .ok (m, rest) → rest.length ≤ s.length := by
  intro s m rest h
  obtain ⟨r, rfl, hm⟩ := entry_eq_ok_iff.mp h
  have hle := (member_passes hitem hm).length_le
  rw [List.length_cons]
  omega

theorem entry_length_le {levels : Nat} : ∀ s m rest,
    entry (value levels) s = .ok (m, rest) → rest.length ≤ s.length :=
  entry_length_le_of_passes fun _ _ _ hx => value_passes hx

theorem listed_of_membersAfter {fuel : Nat} {s rest : Bytes} {ms : List (String × α)}
    (h : membersAfter item fuel s = .ok (ms, rest)) :
    (ms = [] ∧ skipBlanks s = 125 :: rest) ∨
      ∃ u r t, skipBlanks s = 44 :: u ∧ skipBlanks u = 34 :: r ∧
        Listed (entry item) ms (34 :: r) t ∧ skipBlanks t = 125 :: rest := by
  -- A round of the reader reads the brace, or a comma and a member.
  induction fuel generalizing s ms with
  | zero => cases h
  | succ fuel ih =>
    rw [membersAfter] at h
    cases hs : skipBlanks s with
    | nil =>
      rw [hs] at h
      cases h
    | cons b u =>
      rw [hs] at h
      by_cases hend : b = 125
      · simp only [if_pos hend] at h
        cases h
        exact .inl ⟨rfl, by rw [hend]⟩
      simp only [if_neg hend] at h
      by_cases hcomma : b = 44
      · simp only [if_pos hcomma] at h
        cases hu : skipBlanks u with
        | nil =>
          rw [hu] at h
          cases h
        | cons c r =>
          rw [hu] at h
          by_cases hc : c = 34
          · simp only [if_pos hc, bind_eq_ok] at h
            obtain ⟨⟨m, t⟩, hm, ⟨ns, t'⟩, hns, h⟩ := h
            cases h
            subst hc
            have hentry : entry item (34 :: r) = .ok (m, t) := entry_eq_ok_iff.mpr ⟨r, rfl, hm⟩
            refine .inr ⟨u, r, ?_⟩
            obtain ⟨rfl, ht⟩ | ⟨u', r', t', hcomma', hnext', hlisted, ht'⟩ := ih hns
            · exact ⟨t, by rw [hcomma], hu, .last hentry, ht⟩
            · exact ⟨t', by rw [hcomma], hu, .more hentry hcomma' hnext' (by decide) hlisted, ht'⟩
          · simp only [if_neg hc] at h
            split at h
            · cases h
            · cases h
      · simp only [if_neg hcomma] at h
        cases h

/-- Behind the first of the members that are listed, the others are read up to the
brace. -/
theorem Listed.membersAfter
    (hitem : ∀ s m rest, entry item s = .ok (m, rest) → rest.length ≤ s.length)
    {ms : List (String × α)} {s t rest : Bytes} (h : Listed (entry item) ms s t)
    (ht : skipBlanks t = 125 :: rest) :
    ∃ m ns u, ms = m :: ns ∧ entry item s = .ok (m, u) ∧
      ∀ fuel, u.length ≤ fuel → Reader.membersAfter item fuel u = .ok (ns, rest) := by
  induction h with
  | @last m s t hm =>
    refine ⟨m, [], t, rfl, hm, fun fuel hfuel => ?_⟩
    have hlength := length_le_of_skipBlanks ht
    obtain ⟨k, rfl⟩ : ∃ k, fuel = k + 1 := ⟨fuel - 1, by omega⟩
    rw [Reader.membersAfter, ht]
    rfl
  | @more m ms s u v r t c hm hcomma hnext hc _ ih =>
    obtain ⟨n, ns, w, rfl, hn, hns⟩ := ih ht
    -- A member takes a byte at least, so the fuel that is left is enough for the others.
    refine ⟨m, n :: ns, u, rfl, hm, fun fuel hfuel => ?_⟩
    obtain ⟨r', hr, hmember⟩ := entry_eq_ok_iff.mp hn
    cases hr
    have hlength := length_le_of_skipBlanks hcomma
    have hlength' := length_le_of_skipBlanks hnext
    have hlength'' := hitem _ _ _ hn
    rw [List.length_cons] at hlength''
    obtain ⟨k, rfl⟩ : ∃ k, fuel = k + 1 := ⟨fuel - 1, by omega⟩
    rw [Reader.membersAfter, hcomma]
    simp only [if_neg (show (44 : UInt8) ≠ 125 by decide), if_true, hnext, bind_eq_ok]
    exact ⟨_, hmember, _, hns k (by omega), rfl⟩

theorem membership_eq_ok_iff
    (hitem : ∀ s m rest, entry item s = .ok (m, rest) → rest.length ≤ s.length)
    {s rest : Bytes} {ms : List (String × α)} :
    membership item s = .ok (ms, rest) ↔
      (ms = [] ∧ skipBlanks s = 125 :: rest) ∨
        ∃ t, Listed (entry item) ms (skipBlanks s) t ∧ skipBlanks t = 125 :: rest := by
  constructor
  · intro h
    rw [membership] at h
    cases hs : skipBlanks s with
    | nil =>
      rw [hs] at h
      cases h
    | cons c r =>
      rw [hs] at h
      by_cases hc : c = 125
      · simp only [if_pos hc] at h
        cases h
        exact .inl ⟨rfl, by rw [hc]⟩
      simp only [if_neg hc] at h
      by_cases hquote : c = 34
      · simp only [if_pos hquote, bind_eq_ok] at h
        obtain ⟨⟨m, t⟩, hm, ⟨ns, t'⟩, hns, h⟩ := h
        cases h
        subst hquote
        have hentry : entry item (34 :: r) = .ok (m, t) := entry_eq_ok_iff.mpr ⟨r, rfl, hm⟩
        obtain ⟨rfl, ht⟩ | ⟨u', r', t', hcomma', hnext', hlisted, ht'⟩ :=
          listed_of_membersAfter hns
        · exact .inr ⟨t, .last hentry, ht⟩
        · exact .inr ⟨t', .more hentry hcomma' hnext' (by decide) hlisted, ht'⟩
      · simp only [if_neg hquote] at h
        cases h
  · intro h
    rcases h with ⟨rfl, hs⟩ | ⟨t, hlisted, ht⟩
    · rw [membership, hs]
      rfl
    · obtain ⟨m, ns, u, rfl, hm, hns⟩ := hlisted.membersAfter hitem ht
      obtain ⟨r, hs, hmember⟩ := entry_eq_ok_iff.mp hm
      rw [membership, hs]
      simp only [if_neg (show (34 : UInt8) ≠ 125 by decide), if_true, bind_eq_ok]
      exact ⟨_, hmember, _, hns _ (Nat.le_refl _), rfl⟩

/-- An object is what starts with a brace. -/
theorem value_object_iff {levels : Nat} {s rest : Bytes} {ms : List (String × Json)} :
    value (levels + 1) s = .ok (.object ms, rest) ↔
      ∃ r pairs, skipBlanks s = 123 :: r ∧ membership (value levels) r = .ok (pairs, rest) ∧
        ms = collect pairs := by
  rw [value, valueOver]
  cases hs : skipBlanks s with
  | nil => simp
  | cons b r =>
    by_cases hb : b = 123
    · subst hb
      show (inContainer (membership (value levels) r) >>= _) = _ ↔ _
      simp only [bind_eq_ok, inContainer_eq_ok]
      constructor
      · intro h
        obtain ⟨⟨pairs, t⟩, hpairs, h⟩ := h
        cases h
        exact ⟨r, pairs, rfl, hpairs, rfl⟩
      · intro h
        obtain ⟨r', pairs, hr, hpairs, rfl⟩ := h
        cases hr
        exact ⟨_, hpairs, rfl⟩
    · constructor
      case mpr =>
        intro h
        obtain ⟨r', pairs, hr, -⟩ := h
        exact absurd (List.cons.inj hr).1 hb
      intro h
      -- Whatever else the first byte is, it makes something else.
      simp only [if_neg hb] at h
      iterate 7
        split at h
        · obtain ⟨_, -, h⟩ := bind_eq_ok.mp h
          cases h
      cases h

/-- The text is an object with these members, in text order and with every repeat. -/
inductive ObjectText (text : String) : List (String × Json) → Prop
  | empty {r rest : Bytes} (hopen : skipBlanks (Utf8.encode text) = 123 :: r)
    (hclose : skipBlanks r = 125 :: rest) (hend : skipBlanks rest = []) : ObjectText text []
  | members {pairs : List (String × Json)} {r t rest : Bytes}
    (hopen : skipBlanks (Utf8.encode text) = 123 :: r)
    (hlisted : Listed (entry (value (maxDepth - 1))) pairs (skipBlanks r) t)
    (hclose : skipBlanks t = 125 :: rest) (hend : skipBlanks rest = []) : ObjectText text pairs

theorem objectText_iff {text : String} {pairs : List (String × Json)} :
    ObjectText text pairs ↔
      ∃ r rest, skipBlanks (Utf8.encode text) = 123 :: r ∧
        membership (value (maxDepth - 1)) r = .ok (pairs, rest) ∧ skipBlanks rest = [] := by
  constructor
  · intro h
    cases h with
    | @empty r rest hopen hclose hend =>
      exact ⟨r, rest, hopen, (membership_eq_ok_iff entry_length_le).mpr (.inl ⟨rfl, hclose⟩), hend⟩
    | @members _ r t rest hopen hlisted hclose hend =>
      exact ⟨r, rest, hopen,
        (membership_eq_ok_iff entry_length_le).mpr (.inr ⟨t, hlisted, hclose⟩), hend⟩
  · intro h
    obtain ⟨r, rest, hopen, hpairs, hend⟩ := h
    rcases (membership_eq_ok_iff entry_length_le).mp hpairs with ⟨rfl, hclose⟩ | ⟨t, hlisted, hclose⟩
    · exact .empty hopen hclose hend
    · exact .members hopen hlisted hclose hend

theorem ofText_object_iff {text : String} {ms : List (String × Json)} :
    Json.ofText text = .ok (.object ms) ↔ ∃ pairs, ObjectText text pairs ∧ ms = collect pairs := by
  rw [ofText_eq_ok_iff]
  constructor
  · intro h
    obtain ⟨rest, hvalue, hend⟩ := h
    obtain ⟨r, pairs, hopen, hpairs, rfl⟩ := value_object_iff.mp hvalue
    exact ⟨pairs, objectText_iff.mpr ⟨r, rest, hopen, hpairs, hend⟩, rfl⟩
  · intro h
    obtain ⟨pairs, htext, rfl⟩ := h
    obtain ⟨r, rest, hopen, hpairs, hend⟩ := objectText_iff.mp htext
    exact ⟨rest, value_object_iff.mpr ⟨r, pairs, hopen, hpairs, rfl⟩, hend⟩

end Untagged.Json.Reader
