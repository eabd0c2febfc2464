import Mathlib.Data.List.Pairwise
import Untagged.Proofs.Json.Members
import Untagged.Proofs.Shape.Restored

/-!
# The order of an object's members

A record reads the members of an object in document order and stops at the first
fault.  Which fault that is depends on the order.  Whether there is one does not,
and neither does the value that is read: members that set different parts of a draft
commute, so an object with distinct names is read as if its members came in the
order in which the record declares them.

`Record.decode_object_eq_ok_iff` says this: an object is read when the record admits
its names and the members that are there can be read in declared order.
-/

namespace Untagged

namespace Member

variable {σ α β : Type}

/-- Reading a value into one member and a value into the other leads to the same
drafts, whichever comes first. -/
def Commutes (m n : Member σ) : Prop :=
  ∀ v w s t, ((m.read v s).andThen (n.read w)).outcome = .ok t ↔
    ((n.read w s).andThen (m.read v)).outcome = .ok t

theorem Commutes.symm {m n : Member σ} (h : m.Commutes n) : n.Commutes m :=
  fun v w s t => (h w v s t).symm

/-- The member is read by decoding its value and setting the result in the draft. -/
def SetsBy (m : Member σ) (decode : Json → Attempt Rejection α) (set : α → σ → σ) : Prop :=
  ∀ v s, m.read v s = (decode v).map fun a => set a s

theorem SetsBy.read_eq_ok_iff {m : Member σ} {decode : Json → Attempt Rejection α}
    {set : α → σ → σ} (h : m.SetsBy decode set) {v : Json} {s t : σ} :
    (m.read v s).outcome = .ok t ↔ ∃ a, (decode v).outcome = .ok a ∧ set a s = t := by
  rw [h v s]
  exact Attempt.outcome_map_eq_ok

theorem SetsBy.commutes {m n : Member σ} {decode : Json → Attempt Rejection α}
    {decode' : Json → Attempt Rejection β} {set : α → σ → σ} {set' : β → σ → σ}
    (hm : m.SetsBy decode set) (hn : n.SetsBy decode' set')
    (h : ∀ a b s, set' b (set a s) = set a (set' b s)) : m.Commutes n := by
  intro v w s t
  simp only [Attempt.outcome_andThen_eq_ok, hm.read_eq_ok_iff, hn.read_eq_ok_iff]
  constructor
  · rintro ⟨_, ⟨a, ha, rfl⟩, b, hb, rfl⟩
    exact ⟨_, ⟨b, hb, rfl⟩, a, ha, (h a b s).symm⟩
  · rintro ⟨_, ⟨b, hb, rfl⟩, a, ha, rfl⟩
    exact ⟨_, ⟨a, ha, rfl⟩, b, hb, h a b s⟩

end Member

namespace Record

variable {σ : Type} {r : Record σ}

/-- Members with the values that are read into them. -/
abbrev Readings (σ : Type) := List (Member σ × Json)

/-- Reads the values into a draft, one after the other. -/
def readAll : Readings σ → σ → Attempt Rejection σ
  | [], s => .succeed s
  | (m, v) :: ps, s => (m.read v s).andThen (readAll ps)

theorem readAll_cons_eq_ok_iff {m : Member σ} {v : Json} {ps : Readings σ} {s t : σ} :
    (readAll ((m, v) :: ps) s).outcome = .ok t ↔
      ∃ s', (m.read v s).outcome = .ok s' ∧ (readAll ps s').outcome = .ok t :=
  Attempt.outcome_andThen_eq_ok

/-- The first two readings are one step. -/
theorem readAll_cons_cons_eq_ok_iff {m n : Member σ} {v w : Json} {ps : Readings σ}
    {s t : σ} :
    (readAll ((m, v) :: (n, w) :: ps) s).outcome = .ok t ↔
      ∃ s', ((m.read v s).andThen (n.read w)).outcome = .ok s' ∧
        (readAll ps s').outcome = .ok t := by
  simp only [readAll_cons_eq_ok_iff, Attempt.outcome_andThen_eq_ok]
  constructor
  · rintro ⟨s₁, h₁, s₂, h₂, ht⟩
    exact ⟨s₂, ⟨s₁, h₁, h₂⟩, ht⟩
  · rintro ⟨s₂, ⟨s₁, h₁, h₂⟩, ht⟩
    exact ⟨s₁, h₁, s₂, h₂, ht⟩

/-- Readings that commute pairwise may be taken in any order. -/
theorem readAll_perm {ps qs : Readings σ} (h : ps.Perm qs)
    (hcommute : ps.Pairwise fun p q => p.1.Commutes q.1) (s t : σ) :
    (readAll ps s).outcome = .ok t ↔ (readAll qs s).outcome = .ok t := by
  induction h generalizing s with
  | nil => exact Iff.rfl
  | @cons p ps qs _ ih =>
    rw [List.pairwise_cons] at hcommute
    rw [readAll_cons_eq_ok_iff, readAll_cons_eq_ok_iff]
    exact exists_congr fun s' => and_congr_right fun _ => ih hcommute.2 s'
  | swap p q ps =>
    obtain ⟨m, v⟩ := p
    obtain ⟨n, w⟩ := q
    rw [List.pairwise_cons, List.forall_mem_cons] at hcommute
    rw [readAll_cons_cons_eq_ok_iff, readAll_cons_cons_eq_ok_iff]
    exact exists_congr fun s' => and_congr_left fun _ => hcommute.1.1 w v s s'
  | @trans ps qs rs hpq _ ih ih' =>
    have hqs : qs.Pairwise fun p q => p.1.Commutes q.1 :=
      (hpq.pairwise_iff Member.Commutes.symm).mp hcommute
    exact (ih hcommute s).trans (ih' hqs s)

/-! ## What a record reads of an object -/

/-- The members of an object that the record knows, in document order. -/
def known (r : Record σ) (given : List (String × Json)) : Readings σ :=
  given.filterMap fun p => (r.member? p.1).map fun m => (m, p.2)

/-- The members of an object that are among `ms`, in the order of `ms`. -/
def declared (given : List (String × Json)) (ms : List (Member σ)) : Readings σ :=
  ms.filterMap fun m => (Json.lookup? m.name given).map fun v => (m, v)

theorem member?_eq_some_iff (hnames : r.names.Nodup) {name : String} {m : Member σ} :
    r.member? name = some m ↔ m ∈ r.members ∧ m.name = name := by
  constructor
  · intro h
    exact ⟨List.mem_of_find?_eq_some h, by simpa using List.find?_some h⟩
  · rintro ⟨hm, rfl⟩
    exact member?_of_mem hnames hm

theorem member?_eq_none_iff {name : String} : r.member? name = none ↔ name ∉ r.names := by
  rw [member?, List.find?_eq_none, names, List.mem_map]
  simp

theorem mem_known_iff (hnames : r.names.Nodup) {given : List (String × Json)} {m : Member σ}
    {v : Json} : (m, v) ∈ r.known given ↔ m ∈ r.members ∧ (m.name, v) ∈ given := by
  rw [known, List.mem_filterMap]
  constructor
  · rintro ⟨⟨name, w⟩, hmem, hread⟩
    obtain ⟨n, hn, heq⟩ := Option.map_eq_some_iff.mp hread
    cases heq
    obtain ⟨hm, rfl⟩ := (member?_eq_some_iff hnames).mp hn
    exact ⟨hm, hmem⟩
  · rintro ⟨hm, hmem⟩
    refine ⟨(m.name, v), hmem, ?_⟩
    rw [member?_of_mem hnames hm]
    rfl

theorem mem_declared_iff {given : List (String × Json)} (hgiven : (given.map Prod.fst).Nodup)
    {ms : List (Member σ)} {m : Member σ} {v : Json} :
    (m, v) ∈ declared given ms ↔ m ∈ ms ∧ (m.name, v) ∈ given := by
  rw [declared, List.mem_filterMap]
  constructor
  · rintro ⟨n, hn, hread⟩
    obtain ⟨w, hw, heq⟩ := Option.map_eq_some_iff.mp hread
    cases heq
    exact ⟨hn, Json.mem_of_lookup? hw⟩
  · rintro ⟨hm, hmem⟩
    refine ⟨m, hm, ?_⟩
    rw [(Json.lookup?_eq_some_iff hgiven).mpr hmem]
    rfl

theorem nodup_known {given : List (String × Json)} (hgiven : (given.map Prod.fst).Nodup) :
    (r.known given).Nodup := by
  have hpairs : given.Pairwise fun p q => p.1 ≠ q.1 := List.pairwise_map.mp hgiven
  refine hpairs.filterMap _ fun p q hne x hx y hy hxy => hne ?_
  obtain ⟨m, hm, rfl⟩ := Option.map_eq_some_iff.mp hx
  obtain ⟨n, hn, rfl⟩ := Option.map_eq_some_iff.mp hy
  obtain ⟨rfl, -⟩ := Prod.mk.inj hxy
  have hmp : m.name = p.1 := by simpa using List.find?_some hm
  have hmq : m.name = q.1 := by simpa using List.find?_some hn
  exact hmp.symm.trans hmq

theorem nodup_declared {given : List (String × Json)} {ms : List (Member σ)}
    (hms : (ms.map Member.name).Nodup) : (declared given ms).Nodup := by
  have hpairs : ms.Pairwise fun m n => m.name ≠ n.name := List.pairwise_map.mp hms
  refine hpairs.filterMap _ fun m n hne x hx y hy hxy => hne ?_
  obtain ⟨v, -, rfl⟩ := Option.map_eq_some_iff.mp hx
  obtain ⟨w, -, rfl⟩ := Option.map_eq_some_iff.mp hy
  obtain ⟨rfl, -⟩ := Prod.mk.inj hxy
  rfl

/-- Document order and declared order hold the same readings. -/
theorem known_perm_declared (hnames : r.names.Nodup) {given : List (String × Json)}
    (hgiven : (given.map Prod.fst).Nodup) :
    (r.known given).Perm (declared given r.members) := by
  refine (List.perm_ext_iff_of_nodup (nodup_known hgiven) (nodup_declared hnames)).mpr ?_
  rintro ⟨m, v⟩
  rw [mem_known_iff hnames, mem_declared_iff hgiven]

/-- The names of an object suit the record: each required one is there, and no
unknown one where the record is closed. -/
structure AdmitsNames (r : Record σ) (given : List String) : Prop where
  known : r.closed = true → ∀ name ∈ given, name ∈ r.names
  complete : ∀ m ∈ r.members, m.isRequired = true → m.name ∈ given

theorem AdmitsNames.of_perm {names names' : List String} (h : r.AdmitsNames names)
    (hperm : names.Perm names') : r.AdmitsNames names' where
  known hclosed name hname := h.known hclosed name (hperm.mem_iff.mpr hname)
  complete m hm hrequired := hperm.mem_iff.mp (h.complete m hm hrequired)

theorem readMembers_eq_ok_iff {given : List (String × Json)}
    (hgiven : (given.map Prod.fst).Nodup) {seen : List String}
    (hseen : ∀ p ∈ given, p.1 ∉ seen) {s t : σ} :
    (r.readMembers seen given s).outcome = .ok t ↔
      (r.closed = true → ∀ name ∈ given.map Prod.fst, name ∈ r.names) ∧
        (readAll (r.known given) s).outcome = .ok t := by
  induction given generalizing seen s with
  | nil => simp [readMembers, known, readAll]
  | cons p given ih =>
    obtain ⟨name, v⟩ := p
    rw [List.map_cons, List.nodup_cons] at hgiven
    rw [List.forall_mem_cons] at hseen
    rw [readMembers, List.map_cons, List.forall_mem_cons]
    cases hm : r.member? name with
    | none =>
      have hunknown : name ∉ r.names := member?_eq_none_iff.mp hm
      have hknown : r.known ((name, v) :: given) = r.known given := by
        rw [known, List.filterMap_cons, hm]
        rfl
      rw [hknown]
      cases hclosed : r.closed with
      | true => simp [hunknown]
      | false => simp [ih hgiven.2 hseen.2, hclosed]
    | some m =>
      have hname : m.name = name := by simpa using List.find?_some hm
      have hmem : name ∈ r.names :=
        hname ▸ List.mem_map_of_mem (List.mem_of_find?_eq_some hm)
      have hknown : r.known ((name, v) :: given) = (m, v) :: r.known given := by
        rw [known, List.filterMap_cons, hm]
        rfl
      have hseen' : ∀ p ∈ given, p.1 ∉ name :: seen := by
        intro p hp hmem
        rcases List.mem_cons.mp hmem with heq | hmem
        · exact hgiven.1 (List.mem_map.mpr ⟨p, hp, heq⟩)
        · exact hseen.2 p hp hmem
      simp only [if_neg hseen.1]
      rw [hknown, readAll_cons_eq_ok_iff, Attempt.outcome_andThen_eq_ok]
      constructor
      · rintro ⟨s', hs', ht⟩
        obtain ⟨hclosed, ht⟩ := (ih hgiven.2 hseen').mp ht
        exact ⟨fun h => ⟨hmem, hclosed h⟩, s', hs', ht⟩
      · rintro ⟨hclosed, s', hs', ht⟩
        exact ⟨s', hs', (ih hgiven.2 hseen').mpr ⟨fun h => (hclosed h).2, ht⟩⟩

theorem missing?_eq_none_iff {given : List (String × Json)} :
    r.missing? given = none ↔
      ∀ m ∈ r.members, m.isRequired = true → m.name ∈ given.map Prod.fst := by
  rw [missing?, List.find?_eq_none]
  simp

/-! ## Reading in declared order -/

/-- The members of the record have distinct names and set different parts of a
draft. -/
structure Orderly (r : Record σ) : Prop where
  nodup : r.names.Nodup
  commute : r.members.Pairwise Member.Commutes

theorem Orderly.commute_declared (h : r.Orderly) (given : List (String × Json)) :
    (declared given r.members).Pairwise fun p q => p.1.Commutes q.1 := by
  refine h.commute.filterMap _ fun m n hmn x hx y hy => ?_
  obtain ⟨v, -, rfl⟩ := Option.map_eq_some_iff.mp hx
  obtain ⟨w, -, rfl⟩ := Option.map_eq_some_iff.mp hy
  exact hmn

theorem orderly_of_single {m : Member σ} (hmembers : r.members = [m]) : r.Orderly where
  nodup := by
    rw [names, hmembers]
    simp
  commute := by
    rw [hmembers]
    exact List.pairwise_singleton _ m

theorem orderly_of_pair {m n : Member σ} (hmembers : r.members = [m, n])
    (hnames : m.name ≠ n.name) (h : m.Commutes n) : r.Orderly where
  nodup := by
    rw [names, hmembers]
    simpa using hnames
  commute := by
    rw [hmembers]
    exact List.pairwise_pair.mpr h

theorem decode_object_eq_ok_iff (h : r.Orderly) {given : List (String × Json)}
    (hgiven : (given.map Prod.fst).Nodup) {t : σ} :
    (r.decode (.object given)).outcome = .ok t ↔
      r.AdmitsNames (given.map Prod.fst) ∧
        (readAll (declared given r.members) r.blank).outcome = .ok t := by
  have hperm := readAll_perm (known_perm_declared h.nodup hgiven).symm
    (h.commute_declared given) r.blank t
  change (r.ofMembers given).outcome = .ok t ↔ _
  rw [ofMembers, Attempt.outcome_andThen_eq_ok, hperm]
  constructor
  · rintro ⟨s, hs, hlast⟩
    obtain ⟨hclosed, hs⟩ := (readMembers_eq_ok_iff hgiven (by simp)).mp hs
    cases hmissing : r.missing? given with
    | some m =>
      rw [hmissing] at hlast
      cases hlast
    | none =>
      rw [hmissing] at hlast
      cases hlast
      exact ⟨⟨hclosed, missing?_eq_none_iff.mp hmissing⟩, hs⟩
  · rintro ⟨hadmits, ht⟩
    refine ⟨t, (readMembers_eq_ok_iff hgiven (by simp)).mpr ⟨hadmits.known, ht⟩, ?_⟩
    rw [missing?_eq_none_iff.mpr hadmits.complete]
    rfl

end Record

end Untagged
