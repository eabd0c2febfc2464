import Mathlib.Data.List.Nodup
import Untagged.Proofs.Schema.Records

/-!
# Closed records

A closed record knows every member of an object that it reads, and none of them is
repeated.  So such an object is nothing but some of the declared members, among them
all that are required, in any order (`Record.decode_closed_eq_ok_iff`).

Of a record with one member that must be there and one truth value that may be, this
leaves two objects up to order, and an array of one element or two.  `Pair` is that
grammar, and a record of this form accepts it and nothing else
(`Record.IsPair.decode_iff`).
-/

namespace Untagged

namespace Record

variable {σ α : Type} {r : Record σ} {given : List (String × Json)} {t : σ}

/-- The member of an object that a reading reads. -/
def spelled (p : Member σ × Json) : String × Json := (p.1.name, p.2)

theorem map_fst_spelled (ps : Readings σ) :
    (ps.map spelled).map Prod.fst = (ps.map Prod.fst).map Member.name := by
  rw [List.map_map, List.map_map]
  rfl

/-- A closed record notices a name that it does not know, and one that was there
before. -/
theorem nodup_of_readMembers (hclosed : r.closed = true) {seen : List String} {s : σ}
    (h : (r.readMembers seen given s).outcome = .ok t) :
    (given.map Prod.fst).Nodup ∧ ∀ p ∈ given, p.1 ∉ seen := by
  induction given generalizing seen s with
  | nil => exact ⟨List.nodup_nil, nofun⟩
  | cons p given ih =>
    obtain ⟨name, v⟩ := p
    rw [readMembers] at h
    cases hm : r.member? name with
    | none =>
      -- The record does not know the name, and does not skip it.
      simp only [hm, hclosed, if_true] at h
      cases h
    | some m =>
      simp only [hm] at h
      by_cases hseen : name ∈ seen
      · rw [if_pos hseen] at h
        cases h
      · rw [if_neg hseen] at h
        obtain ⟨s', -, hrest⟩ := Attempt.outcome_andThen_eq_ok.mp h
        obtain ⟨hnodup, hfresh⟩ := ih hrest
        refine ⟨List.nodup_cons.mpr ⟨?_, hnodup⟩, List.forall_mem_cons.mpr ⟨hseen, ?_⟩⟩
        · intro hmem
          obtain ⟨q, hq, hname⟩ := List.mem_map.mp hmem
          exact hfresh q hq (hname ▸ List.mem_cons_self)
        · intro q hq hmem
          exact hfresh q hq (List.mem_cons_of_mem name hmem)

theorem nodup_of_decode (hclosed : r.closed = true)
    (h : (r.decode (.object given)).outcome = .ok t) : (given.map Prod.fst).Nodup := by
  change (r.ofMembers given).outcome = .ok t at h
  obtain ⟨s, hs, -⟩ := Attempt.outcome_andThen_eq_ok.mp h
  exact (nodup_of_readMembers hclosed hs).1

theorem map_fst_declared_sublist (given : List (String × Json)) (ms : List (Member σ)) :
    ((declared given ms).map Prod.fst).Sublist ms := by
  induction ms with
  | nil => exact List.Sublist.refl []
  | cons m ms ih =>
    rw [declared, List.filterMap_cons]
    cases Json.lookup? m.name given with
    | none => exact ih.cons m
    | some v => exact ih.cons_cons m

theorem nodup_map_spelled {ps : Readings σ} (h : ((ps.map spelled).map Prod.fst).Nodup) :
    (ps.map spelled).Nodup ∧ ps.Nodup := by
  have hspelled : (ps.map spelled).Nodup := List.Nodup.of_map _ h
  exact ⟨hspelled, List.Nodup.of_map _ hspelled⟩

/-- An object without unknown and repeated names consists of what is read of it. -/
theorem perm_spelled_declared (hnames : r.names.Nodup) (hgiven : (given.map Prod.fst).Nodup)
    (hknown : ∀ name ∈ given.map Prod.fst, name ∈ r.names) :
    given.Perm ((declared given r.members).map spelled) := by
  have hsub : (((declared given r.members).map spelled).map Prod.fst).Sublist r.names := by
    rw [map_fst_spelled]
    exact (map_fst_declared_sublist given r.members).map Member.name
  have hnodup := (nodup_map_spelled (hsub.nodup hnames)).1
  refine (List.perm_ext_iff_of_nodup (List.Nodup.of_map _ hgiven) hnodup).mpr ?_
  intro p
  rw [List.mem_map]
  constructor
  · intro hp
    obtain ⟨m, hm, hname⟩ := List.mem_map.mp (hknown p.1 (List.mem_map_of_mem hp))
    have hspelled : spelled (m, p.2) = p := Prod.ext hname rfl
    refine ⟨(m, p.2), (mem_declared_iff hgiven).mpr ⟨hm, ?_⟩, hspelled⟩
    exact hspelled.symm ▸ hp
  · intro h
    obtain ⟨⟨m, v⟩, hread, rfl⟩ := h
    exact ((mem_declared_iff hgiven).mp hread).2

/-- Of an object that consists of readings of declared members, those are read. -/
theorem declared_perm (hnames : r.names.Nodup) {ps : Readings σ}
    (hsub : (ps.map Prod.fst).Sublist r.members) (hperm : given.Perm (ps.map spelled)) :
    (given.map Prod.fst).Nodup ∧ (declared given r.members).Perm ps := by
  have hnodup : ((ps.map spelled).map Prod.fst).Nodup := by
    rw [map_fst_spelled]
    exact (hsub.map Member.name).nodup hnames
  have hgiven : (given.map Prod.fst).Nodup := (hperm.map Prod.fst).nodup_iff.mpr hnodup
  refine ⟨hgiven, (List.perm_ext_iff_of_nodup (nodup_declared hnames)
    (nodup_map_spelled hnodup).2).mpr fun p => ?_⟩
  obtain ⟨m, v⟩ := p
  rw [mem_declared_iff hgiven, hperm.mem_iff, List.mem_map]
  constructor
  · intro hmem
    obtain ⟨hm, ⟨n, w⟩, hn, heq⟩ := hmem
    obtain ⟨hname, rfl⟩ := Prod.mk.inj heq
    -- The member of this name is the one that was read, as no two have the same name.
    have hnmem : n ∈ r.members := hsub.mem (List.mem_map_of_mem hn)
    have hmn : n = m := List.inj_on_of_nodup_map hnames hnmem hm hname
    exact hmn ▸ hn
  · intro hmem
    exact ⟨hsub.mem (List.mem_map_of_mem hmem), (m, v), hmem, rfl⟩

/-- A closed record reads the objects that consist of declared members, in any order,
with every required one among them. -/
theorem decode_closed_eq_ok_iff (h : r.Orderly) (hclosed : r.closed = true) :
    (r.decode (.object given)).outcome = .ok t ↔
      ∃ ps : Readings σ, (ps.map Prod.fst).Sublist r.members ∧
        (∀ m ∈ r.members, m.isRequired = true → m ∈ ps.map Prod.fst) ∧
        given.Perm (ps.map spelled) ∧ (readAll ps r.blank).outcome = .ok t := by
  constructor
  · intro ht
    have hgiven := nodup_of_decode hclosed ht
    obtain ⟨hadmits, hread⟩ := (decode_object_eq_ok_iff h hgiven).mp ht
    refine ⟨declared given r.members, map_fst_declared_sublist given r.members, ?_,
      perm_spelled_declared h.nodup hgiven (hadmits.known hclosed), hread⟩
    intro m hm hrequired
    obtain ⟨⟨name, v⟩, hp, hname⟩ := List.mem_map.mp (hadmits.complete m hm hrequired)
    obtain rfl : name = m.name := hname
    exact List.mem_map_of_mem ((mem_declared_iff hgiven).mpr ⟨hm, hp⟩)
  · intro hps
    obtain ⟨ps, hsub, hcomplete, hperm, hread⟩ := hps
    obtain ⟨hgiven, hsame⟩ := declared_perm h.nodup hsub hperm
    have hnames : (given.map Prod.fst).Perm ((ps.map Prod.fst).map Member.name) := by
      rw [← map_fst_spelled]
      exact hperm.map Prod.fst
    refine (decode_object_eq_ok_iff h hgiven).mpr ⟨⟨fun _ => ?_, ?_⟩, ?_⟩
    · intro name hname
      exact (hsub.map Member.name).mem (hnames.mem_iff.mp hname)
    · intro m hm hrequired
      exact hnames.mem_iff.mpr (List.mem_map_of_mem (hcomplete m hm hrequired))
    · exact (readAll_perm hsame (h.commute_declared given) r.blank t).mpr hread

end Record

/-! ## A member that must be there and a truth value that may be -/

/-- An optional truth value: a boolean, or `null` for none. -/
inductive Truth : Option Bool → Json → Prop
  | none : Truth none .null
  | some (b : Bool) : Truth (some b) (.boolean b)

/-- The values that consist of `value`, under its name or in first place, and at most
an optional truth value beside it. -/
inductive Pair (name flagName : String) (value : Json) : Option Bool → Json → Prop
  | alone : Pair name flagName value none (.object [(name, value)])
  | members {flag : Option Bool} {w : Json} {ms : List (String × Json)} (hw : Truth flag w)
      (hms : ms.Perm [(name, value), (flagName, w)]) : Pair name flagName value flag (.object ms)
  | single : Pair name flagName value none (.array [value])
  | elements {flag : Option Bool} {w : Json} (hw : Truth flag w) :
      Pair name flagName value flag (.array [value, w])

theorem Truth.iff_decode {flag : Option Bool} {w : Json} :
    Truth flag w ↔ (Shape.boolean.option.decode w).outcome = .ok flag := by
  constructor
  · intro h
    cases h with
    | none => rfl
    | some b => rfl
  · intro h
    cases w with
    | null =>
      cases h
      exact .none
    | boolean b =>
      cases h
      exact .some b
    | _ => cases h

theorem Pair.isContainer {name flagName : String} {value v : Json} {flag : Option Bool}
    (h : Pair name flagName value flag v) : v.kind.isContainer = true := by
  cases h <;> rfl

namespace Record

variable {σ α : Type} {r : Record σ}

/-- A record with a member that must be there, read by some shape, and a truth value
that may be absent. -/
structure IsPair (r : Record σ) (shape : Shape α) (set : α → σ → σ)
    (setFlag : Option Bool → σ → σ) (m n : Member σ) : Prop where
  orderly : r.Orderly
  closed : r.closed = true
  members : r.members = [m, n]
  required : m.isRequired = true
  positional : m.isPositional = true
  optional : n.isPositional = false
  sets : m.SetsBy shape.decode set
  setsFlag : n.SetsBy Shape.boolean.option.decode setFlag
  /-- An absent truth value is as good as none. -/
  blank : ∀ a, setFlag none (set a r.blank) = set a r.blank

variable {shape : Shape α} {set : α → σ → σ} {setFlag : Option Bool → σ → σ} {m n : Member σ}

/-- Readings of two members with one for the first. -/
theorem readings_of_pair {ps : Readings σ} (hsub : (ps.map Prod.fst).Sublist [m, n])
    (hm : m ∈ ps.map Prod.fst) :
    (∃ x, ps = [(m, x)]) ∨ ∃ x w, ps = [(m, x), (n, w)] := by
  match ps with
  | [] => cases hm
  | [(k, x)] =>
    obtain rfl : m = k := List.mem_singleton.mp hm
    exact .inl ⟨x, rfl⟩
  | [(k, x), (l, w)] =>
    have heq : [k, l] = [m, n] := hsub.eq_of_length rfl
    cases heq
    exact .inr ⟨x, w, rfl⟩
  | p :: q :: o :: ps =>
    have hlength := hsub.length_le
    simp only [List.map_cons, List.length_cons, List.length_nil] at hlength
    omega

theorem IsPair.optional_required (h : r.IsPair shape set setFlag m n) : n.isRequired = false := by
  have hoptional := h.optional
  rw [Member.isPositional, Bool.or_eq_false_iff] at hoptional
  exact hoptional.1

/-- A member is read and the optional one is not there. -/
theorem IsPair.readAll_alone_iff (h : r.IsPair shape set setFlag m n) {x : Json} {t : σ} :
    (readAll [(m, x)] r.blank).outcome = .ok t ↔
      ∃ a, (shape.decode x).outcome = .ok a ∧ setFlag none (set a r.blank) = t := by
  rw [readAll_cons_eq_ok_iff]
  constructor
  · intro hread
    obtain ⟨s, hs, ht⟩ := hread
    obtain ⟨a, ha, rfl⟩ := h.sets.read_eq_ok_iff.mp hs
    cases ht
    exact ⟨a, ha, h.blank a⟩
  · intro hdecode
    obtain ⟨a, ha, rfl⟩ := hdecode
    exact ⟨set a r.blank, h.sets.read_eq_ok_iff.mpr ⟨a, ha, rfl⟩, by rw [h.blank a]; rfl⟩

theorem IsPair.readAll_both_iff (h : r.IsPair shape set setFlag m n) {x w : Json} {t : σ} :
    (readAll [(m, x), (n, w)] r.blank).outcome = .ok t ↔
      ∃ a flag, (shape.decode x).outcome = .ok a ∧ Truth flag w ∧
        setFlag flag (set a r.blank) = t := by
  rw [readAll_cons_eq_ok_iff]
  constructor
  · intro hread
    obtain ⟨s, hs, hrest⟩ := hread
    obtain ⟨a, ha, rfl⟩ := h.sets.read_eq_ok_iff.mp hs
    obtain ⟨s', hs', ht⟩ := readAll_cons_eq_ok_iff.mp hrest
    obtain ⟨flag, hflag, rfl⟩ := h.setsFlag.read_eq_ok_iff.mp hs'
    cases ht
    exact ⟨a, flag, ha, Truth.iff_decode.mpr hflag, rfl⟩
  · intro hdecode
    obtain ⟨a, flag, ha, hw, rfl⟩ := hdecode
    refine ⟨set a r.blank, h.sets.read_eq_ok_iff.mpr ⟨a, ha, rfl⟩, ?_⟩
    refine readAll_cons_eq_ok_iff.mpr ⟨_, ?_, rfl⟩
    exact h.setsFlag.read_eq_ok_iff.mpr ⟨flag, Truth.iff_decode.mp hw, rfl⟩

theorem IsPair.decode_object_iff (h : r.IsPair shape set setFlag m n)
    {given : List (String × Json)} {t : σ} :
    (r.decode (.object given)).outcome = .ok t ↔
      ∃ x a flag, (shape.decode x).outcome = .ok a ∧
        Pair m.name n.name x flag (.object given) ∧ setFlag flag (set a r.blank) = t := by
  rw [decode_closed_eq_ok_iff h.orderly h.closed, h.members]
  constructor
  · intro hread
    obtain ⟨ps, hsub, hcomplete, hperm, hread⟩ := hread
    obtain ⟨x, rfl⟩ | ⟨x, w, rfl⟩ :=
      readings_of_pair hsub (hcomplete m List.mem_cons_self h.required)
    · obtain ⟨a, ha, ht⟩ := h.readAll_alone_iff.mp hread
      obtain rfl : given = [(m.name, x)] := List.perm_singleton.mp hperm
      exact ⟨x, a, none, ha, .alone, ht⟩
    · obtain ⟨a, flag, ha, hw, ht⟩ := h.readAll_both_iff.mp hread
      exact ⟨x, a, flag, ha, .members hw hperm, ht⟩
  · intro hpair
    obtain ⟨x, a, flag, ha, hpair, ht⟩ := hpair
    cases hpair with
    | alone =>
      refine ⟨[(m, x)], (List.nil_sublist _).cons_cons m, ?_, List.Perm.refl _,
        h.readAll_alone_iff.mpr ⟨a, ha, ht⟩⟩
      rw [List.forall_mem_cons, List.forall_mem_singleton]
      refine ⟨fun _ => List.mem_cons_self, fun hrequired => ?_⟩
      rw [h.optional_required] at hrequired
      cases hrequired
    | @members _ w _ hw hperm =>
      refine ⟨[(m, x), (n, w)], List.Sublist.refl _, ?_, hperm,
        h.readAll_both_iff.mpr ⟨a, flag, ha, hw, ht⟩⟩
      exact fun k hk _ => hk

theorem IsPair.decode_array_iff (h : r.IsPair shape set setFlag m n) {vs : List Json} {t : σ} :
    (r.decode (.array vs)).outcome = .ok t ↔
      ∃ x a flag, (shape.decode x).outcome = .ok a ∧
        Pair m.name n.name x flag (.array vs) ∧ setFlag flag (set a r.blank) = t := by
  rw [decode_array_pair_iff h.members h.positional h.optional]
  constructor
  · intro hread
    obtain ⟨x, s, hs, hrest⟩ := hread
    obtain ⟨a, ha, rfl⟩ := h.sets.read_eq_ok_iff.mp hs
    obtain ⟨rfl, rfl⟩ | ⟨w, rfl, hw⟩ := hrest
    · exact ⟨x, a, none, ha, .single, h.blank a⟩
    · obtain ⟨flag, hflag, rfl⟩ := h.setsFlag.read_eq_ok_iff.mp hw
      exact ⟨x, a, flag, ha, .elements (Truth.iff_decode.mpr hflag), rfl⟩
  · intro hpair
    obtain ⟨x, a, flag, ha, hpair, rfl⟩ := hpair
    refine ⟨x, set a r.blank, h.sets.read_eq_ok_iff.mpr ⟨a, ha, rfl⟩, ?_⟩
    cases hpair with
    | single => exact .inl ⟨rfl, (h.blank a).symm⟩
    | elements hw =>
      exact .inr ⟨_, rfl, h.setsFlag.read_eq_ok_iff.mpr ⟨flag, Truth.iff_decode.mp hw, rfl⟩⟩

/-- A record of a value and a truth value accepts its grammar and nothing else. -/
theorem IsPair.decode_iff (h : r.IsPair shape set setFlag m n) {v : Json} {t : σ} :
    (r.decode v).outcome = .ok t ↔
      ∃ x a flag, (shape.decode x).outcome = .ok a ∧ Pair m.name n.name x flag v ∧
        setFlag flag (set a r.blank) = t := by
  cases v with
  | object given => exact h.decode_object_iff
  | array vs => exact h.decode_array_iff
  | _ =>
    constructor
    · intro ht
      cases ht
    · intro hpair
      obtain ⟨x, a, flag, -, hpair, -⟩ := hpair
      cases hpair

end Record

end Untagged
