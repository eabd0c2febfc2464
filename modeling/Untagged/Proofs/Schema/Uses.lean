import Mathlib.Data.List.Nodup
import Untagged.Schema.Definitions

/-!
# The types that a type uses

A type uses the types with a definition of its own that it is made of, at every depth.
`uses` lists them in the order in which they are met, each before those that it uses
in turn, and as often as they are met.

Collecting definitions skips what a type uses where the type's name is there already.
Nothing is lost by this while a name stands for one type only (`NamedApart`): then
collecting enters, one after the other, the types that are used and whose names are new
(`collectAll_eq_foldl_enter`).

`NamedApart` is asked of all the types that are used, the nested ones as well, and not
only of the unions and their variants: a nested type is entered by its name too, and
would be skipped where another one has taken the name.
-/

namespace Untagged

namespace TypeSchema

/-! ## Parts -/

/-- The types that a type is made of directly. -/
def parts : TypeSchema → List TypeSchema
  | list item => [item]
  | option inner => [inner]
  | record _ _ members => members.map fun m => m.2.2
  | union _ variants => variants
  | named _ body => [body]
  | _ => []

/-- The definition that a type has itself, if any. -/
def ownDefinition : TypeSchema → Definitions
  | named name body => [(name, body)]
  | _ => []

theorem sizeOf_lt_of_mem_parts {s p : TypeSchema} (h : p ∈ s.parts) : sizeOf p < sizeOf s := by
  cases s with
  | list item =>
    obtain rfl := List.mem_singleton.mp h
    simp
  | option inner =>
    obtain rfl := List.mem_singleton.mp h
    simp
  | record description closed members =>
    obtain ⟨⟨name, presence, schema⟩, hm, rfl⟩ := List.mem_map.mp h
    have hlt := List.sizeOf_lt_of_mem hm
    simp only [Prod.mk.sizeOf_spec] at hlt
    simp only [record.sizeOf_spec]
    omega
  | union title variants =>
    have hlt : sizeOf p < sizeOf variants := List.sizeOf_lt_of_mem h
    simp only [union.sizeOf_spec]
    omega
  | named name body =>
    obtain rfl := List.mem_singleton.mp h
    simp only [named.sizeOf_spec]
    omega
  | _ => cases h

/-- What holds of a type when it holds of its parts holds of every type. -/
@[elab_as_elim]
theorem induction_parts {motive : TypeSchema → Prop}
    (h : ∀ s : TypeSchema, (∀ p ∈ s.parts, motive p) → motive s) (s : TypeSchema) : motive s :=
  h s fun p hp =>
    have := sizeOf_lt_of_mem_parts hp
    induction_parts h p
termination_by sizeOf s

/-! ## Uses -/

mutual

/-- The types with a definition of their own that a type is made of, and the type itself
if it is one. -/
def uses : TypeSchema → Definitions
  | list item => uses item
  | option inner => uses inner
  | record _ _ members => usesOfMembers members
  | union _ variants => usesOfAll variants
  | named name body => (name, body) :: uses body
  | _ => []

/-- What the types of some members use. -/
def usesOfMembers : List (String × Presence × TypeSchema) → Definitions
  | [] => []
  | (_, _, schema) :: rest => uses schema ++ usesOfMembers rest

/-- What some types use. -/
def usesOfAll : List TypeSchema → Definitions
  | [] => []
  | schema :: rest => uses schema ++ usesOfAll rest

end

theorem usesOfAll_eq_flatMap (ss : List TypeSchema) : usesOfAll ss = ss.flatMap uses := by
  induction ss with
  | nil => rfl
  | cons s ss ih => rw [usesOfAll, List.flatMap_cons, ih]

theorem usesOfMembers_eq (members : List (String × Presence × TypeSchema)) :
    usesOfMembers members = usesOfAll (members.map fun m => m.2.2) := by
  induction members with
  | nil => rfl
  | cons m members ih =>
    obtain ⟨name, presence, schema⟩ := m
    rw [usesOfMembers, ih]
    rfl

/-- A type uses itself and what its parts use. -/
theorem uses_eq (s : TypeSchema) : s.uses = s.ownDefinition ++ usesOfAll s.parts := by
  cases s with
  | record description closed members => rw [uses, usesOfMembers_eq]; rfl
  | union title variants => rfl
  | list item => simp [uses, parts, ownDefinition, usesOfAll]
  | option inner => simp [uses, parts, ownDefinition, usesOfAll]
  | named name body => simp [uses, parts, ownDefinition, usesOfAll]
  | _ => rfl

theorem mem_usesOfAll_iff {ss : List TypeSchema} {d : String × TypeSchema} :
    d ∈ usesOfAll ss ↔ ∃ s ∈ ss, d ∈ s.uses := by
  rw [usesOfAll_eq_flatMap, List.mem_flatMap]

theorem mem_uses_iff {s : TypeSchema} {d : String × TypeSchema} :
    d ∈ s.uses ↔ s = named d.1 d.2 ∨ ∃ p ∈ s.parts, d ∈ p.uses := by
  rw [uses_eq, List.mem_append, mem_usesOfAll_iff]
  refine or_congr_left ?_
  cases s <;> simp [ownDefinition, Prod.ext_iff, eq_comm]

/-- A type that is used is a part. -/
theorem sizeOf_lt_of_mem_uses {s : TypeSchema} {d : String × TypeSchema} (h : d ∈ s.uses) :
    sizeOf d.2 < sizeOf s := by
  induction s using induction_parts with
  | h s ih =>
    rcases mem_uses_iff.mp h with rfl | ⟨p, hp, hd⟩
    · exact sizeOf_lt_of_mem_parts (List.mem_singleton_self d.2)
    · exact Nat.lt_trans (ih p hp hd) (sizeOf_lt_of_mem_parts hp)

/-- No type uses itself. -/
theorem not_mem_uses_self (d : String × TypeSchema) : d ∉ d.2.uses :=
  fun h => Nat.lt_irrefl _ (sizeOf_lt_of_mem_uses h)

/-- What is used by a type that is used is used. -/
theorem uses_subset {s : TypeSchema} {d : String × TypeSchema} (h : d ∈ s.uses) :
    d.2.uses ⊆ s.uses := by
  induction s using induction_parts with
  | h s ih =>
    intro e he
    rcases mem_uses_iff.mp h with rfl | ⟨p, hp, hd⟩
    · exact List.mem_cons_of_mem _ he
    · exact mem_uses_iff.mpr (.inr ⟨p, hp, ih p hp hd he⟩)

theorem usesOfAll_closed {ss : List TypeSchema} {d : String × TypeSchema} (h : d ∈ usesOfAll ss) :
    d.2.uses ⊆ usesOfAll ss := by
  obtain ⟨s, hs, hd⟩ := mem_usesOfAll_iff.mp h
  exact fun e he => mem_usesOfAll_iff.mpr ⟨s, hs, uses_subset hd he⟩

/-! ## Names that stand for one type -/

/-- No two of the types have the same name. -/
def NamedApart (used : Definitions) : Prop := ∀ d ∈ used, ∀ e ∈ used, d.1 = e.1 → d = e

theorem NamedApart.mono {used used' : Definitions} (h : NamedApart used) (hsub : used' ⊆ used) :
    NamedApart used' :=
  fun d hd e he => h d (hsub hd) e (hsub he)

/-- Types are named apart when looking up their names finds themselves. -/
theorem namedApart_of_lookup {used : Definitions}
    (h : used.map (fun d => used.lookup d.1) = used.map fun d => some d.2) : NamedApart used := by
  rw [List.map_inj_left] at h
  intro d hd e he hname
  refine Prod.ext hname (Option.some.inj ?_)
  rw [← h d hd, ← h e he, hname]

/-! ## Entering definitions -/

/-- Enters the definition of a type, unless there is one of its name. -/
def enter (defs : Definitions) (d : String × TypeSchema) : Definitions :=
  if (defs.map Prod.fst).contains d.1 then defs else defs ++ [d]

theorem enter_of_mem {defs : Definitions} {d : String × TypeSchema}
    (h : d.1 ∈ defs.map Prod.fst) : enter defs d = defs :=
  if_pos (List.contains_iff_mem.mpr h)

theorem enter_of_not_mem {defs : Definitions} {d : String × TypeSchema}
    (h : d.1 ∉ defs.map Prod.fst) : enter defs d = defs ++ [d] :=
  if_neg fun hmem => h (List.contains_iff_mem.mp hmem)

/-- Types whose names are all there are not entered. -/
theorem foldl_enter_of_subset {defs used : Definitions}
    (h : used.map Prod.fst ⊆ defs.map Prod.fst) : used.foldl enter defs = defs := by
  induction used with
  | nil => rfl
  | cons d used ih =>
    rw [List.map_cons, List.cons_subset] at h
    rw [List.foldl_cons, enter_of_mem h.1, ih h.2]

theorem removeAll_concat (names defined : List String) (name : String) :
    names.removeAll (defined ++ [name]) = (names.removeAll defined).filter fun n => !n == name := by
  rw [List.removeAll, List.removeAll, List.filter_filter]
  refine List.filter_congr fun n _ => ?_
  rw [Bool.eq_iff_iff]
  simp [and_comm]

/-- Entered are the first types of their names, in order, behind what is there. -/
theorem exists_foldl_enter (defs used : Definitions) :
    ∃ added : Definitions, used.foldl enter defs = defs ++ added ∧ added ⊆ used ∧
      added.map Prod.fst = ((used.map Prod.fst).removeAll (defs.map Prod.fst)).eraseDups := by
  induction used generalizing defs with
  | nil => exact ⟨[], (List.append_nil defs).symm, List.Subset.refl [], rfl⟩
  | cons d used ih =>
    rw [List.foldl_cons, List.map_cons]
    by_cases hd : d.1 ∈ defs.map Prod.fst
    · obtain ⟨added, heq, hsub, hnames⟩ := ih defs
      refine ⟨added, ?_, List.subset_cons_of_subset d hsub, ?_⟩
      · rw [enter_of_mem hd, heq]
      · rw [hnames, List.cons_removeAll, if_neg (by simpa using hd)]
    · obtain ⟨added, heq, hsub, hnames⟩ := ih (defs ++ [d])
      refine ⟨d :: added, ?_, List.cons_subset_cons d hsub, ?_⟩
      · rw [enter_of_not_mem hd, heq, List.append_assoc, List.singleton_append]
      · rw [List.map_cons, hnames, List.map_append, List.map_singleton, removeAll_concat,
          List.cons_removeAll, if_pos (by simpa using hd), List.eraseDups_cons]

theorem map_fst_foldl_enter (defs used : Definitions) :
    (used.foldl enter defs).map Prod.fst =
      defs.map Prod.fst ++ ((used.map Prod.fst).removeAll (defs.map Prod.fst)).eraseDups := by
  obtain ⟨added, heq, -, hnames⟩ := exists_foldl_enter defs used
  rw [heq, List.map_append, hnames]

theorem mem_map_fst_foldl_enter {defs used : Definitions} {name : String} :
    name ∈ (used.foldl enter defs).map Prod.fst ↔
      name ∈ defs.map Prod.fst ∨ name ∈ used.map Prod.fst := by
  rw [map_fst_foldl_enter, List.mem_append, List.mem_eraseDups, List.removeAll, List.mem_filter]
  by_cases h : name ∈ defs.map Prod.fst <;> simp [h]

theorem nodup_enter {defs : Definitions} (h : (defs.map Prod.fst).Nodup)
    (d : String × TypeSchema) : ((enter defs d).map Prod.fst).Nodup := by
  by_cases hd : d.1 ∈ defs.map Prod.fst
  · rwa [enter_of_mem hd]
  · rw [enter_of_not_mem hd, List.map_append, List.map_singleton, List.nodup_append]
    refine ⟨h, List.nodup_singleton d.1, fun name hname other hother heq => hd ?_⟩
    rw [List.mem_singleton] at hother
    exact hother ▸ heq ▸ hname

theorem nodup_foldl_enter {defs : Definitions} (h : (defs.map Prod.fst).Nodup)
    (used : Definitions) : ((used.foldl enter defs).map Prod.fst).Nodup := by
  induction used generalizing defs with
  | nil => exact h
  | cons d used ih => exact ih (nodup_enter h d)

/-- Of types that are named apart every one is entered where there was nothing. -/
theorem mem_foldl_enter_iff {used : Definitions} (h : NamedApart used) {d : String × TypeSchema} :
    d ∈ used.foldl enter [] ↔ d ∈ used := by
  obtain ⟨added, heq, hsub, -⟩ := exists_foldl_enter [] used
  rw [List.nil_append] at heq
  constructor
  · intro hd
    exact hsub (heq ▸ hd)
  · intro hd
    have hname : d.1 ∈ (used.foldl enter []).map Prod.fst :=
      mem_map_fst_foldl_enter.mpr (.inr (List.mem_map_of_mem hd))
    obtain ⟨e, he, hed⟩ := List.mem_map.mp hname
    obtain rfl := h e (hsub (heq ▸ he)) d hd hed
    exact he

/-! ## Collecting definitions -/

theorem collectAll_eq_foldl (ss : List TypeSchema) (defs : Definitions) :
    collectAll ss defs = ss.foldl (fun defs s => s.collect defs) defs := by
  induction ss generalizing defs with
  | nil => rfl
  | cons s ss ih => rw [collectAll, ih, List.foldl_cons]

theorem collectAll_append (ss ts : List TypeSchema) (defs : Definitions) :
    collectAll (ss ++ ts) defs = collectAll ts (collectAll ss defs) := by
  rw [collectAll_eq_foldl, collectAll_eq_foldl, collectAll_eq_foldl, List.foldl_append]

theorem collectMembers_eq (members : List (String × Presence × TypeSchema)) (defs : Definitions) :
    collectMembers members defs = collectAll (members.map fun m => m.2.2) defs := by
  induction members generalizing defs with
  | nil => rfl
  | cons m members ih =>
    obtain ⟨name, presence, schema⟩ := m
    rw [collectMembers, ih]
    rfl

/-- A type without a definition of its own is collected by its parts. -/
theorem collect_of_not_named {s : TypeSchema} (h : s.ownDefinition = []) (defs : Definitions) :
    s.collect defs = collectAll s.parts defs := by
  cases s with
  | record description closed members => rw [collect, collectMembers_eq]; rfl
  | named name body => cases h
  | list item => simp [collect, parts, collectAll]
  | option inner => simp [collect, parts, collectAll]
  | _ => rfl

/-- Where the name of a used type is there, so are the names of all that it uses. -/
def Settled (defs used : Definitions) : Prop :=
  ∀ d ∈ used, d.1 ∈ defs.map Prod.fst → d.2.uses.map Prod.fst ⊆ defs.map Prod.fst

/-- Entering what some types use leaves everything settled. -/
theorem Settled.foldl_enter {defs : Definitions} {ss ts : List TypeSchema}
    (hapart : NamedApart (usesOfAll (ss ++ ts))) (h : Settled defs (usesOfAll ts)) :
    Settled ((usesOfAll ss).foldl enter defs) (usesOfAll ts) := by
  intro d hd hname name hmem
  rw [usesOfAll_eq_flatMap, List.flatMap_append, ← usesOfAll_eq_flatMap,
    ← usesOfAll_eq_flatMap] at hapart
  rw [mem_map_fst_foldl_enter] at hname ⊢
  rcases hname with hthere | hentered
  · exact .inl (h d hd hthere hmem)
  · -- The type of this name that was entered is the same one.
    obtain ⟨e, he, hed⟩ := List.mem_map.mp hentered
    obtain rfl := hapart e (List.mem_append_left _ he) d (List.mem_append_right _ hd) hed
    exact .inr (List.map_subset _ (usesOfAll_closed he) hmem)

theorem collectAll_eq_of_collect_eq {ss : List TypeSchema} (hapart : NamedApart (usesOfAll ss))
    (hcollect : ∀ s ∈ ss, ∀ defs, Settled defs s.uses → s.collect defs = s.uses.foldl enter defs)
    {defs : Definitions} (h : Settled defs (usesOfAll ss)) :
    collectAll ss defs = (usesOfAll ss).foldl enter defs := by
  induction ss generalizing defs with
  | nil => rfl
  | cons s ss ih =>
    have hs : Settled defs s.uses := fun d hd => h d (List.mem_append_left _ hd)
    have hss : Settled defs (usesOfAll ss) := fun d hd => h d (List.mem_append_right _ hd)
    have hentered : Settled ((usesOfAll [s]).foldl enter defs) (usesOfAll ss) :=
      Settled.foldl_enter hapart hss
    rw [show usesOfAll [s] = s.uses from List.append_nil _] at hentered
    rw [collectAll, usesOfAll, List.foldl_append, hcollect s (.head _) defs hs]
    exact ih (hapart.mono (List.subset_append_right _ _))
      (fun t ht => hcollect t (.tail _ ht)) hentered

/-- What is used by a type that is named apart is settled behind the type's own entry, as
the type does not use itself. -/
theorem Settled.behind {defs : Definitions} {name : String} {body : TypeSchema}
    (hapart : NamedApart (uses (named name body))) (h : Settled defs body.uses) :
    Settled (defs ++ [(name, body)]) body.uses := by
  intro d hd hname
  rw [List.map_append, List.mem_append, List.map_singleton, List.mem_singleton] at hname
  rcases hname with hthere | hown
  · rw [List.map_append]
    exact List.subset_append_of_subset_left _ (h d hd hthere)
  · obtain rfl := hapart d (.tail _ hd) (name, body) (.head _) hown
    exact absurd hd (not_mem_uses_self (name, body))

theorem collect_eq_foldl_enter {s : TypeSchema} (hapart : NamedApart s.uses) {defs : Definitions}
    (h : Settled defs s.uses) : s.collect defs = s.uses.foldl enter defs := by
  induction s using induction_parts generalizing defs with
  | h s ih =>
    have hpart : ∀ p ∈ s.parts, p.uses ⊆ s.uses :=
      fun p hp d hd => mem_uses_iff.mpr (.inr ⟨p, hp, hd⟩)
    have hparts : usesOfAll s.parts ⊆ s.uses := fun d hd => by
      obtain ⟨p, hp, hd⟩ := mem_usesOfAll_iff.mp hd
      exact hpart p hp hd
    have hcollect : ∀ p ∈ s.parts, ∀ defs, Settled defs p.uses →
        p.collect defs = p.uses.foldl enter defs :=
      fun p hp defs hdefs => ih p hp (hapart.mono (hpart p hp)) hdefs
    by_cases hown : s.ownDefinition = []
    · rw [collect_of_not_named hown, uses_eq, hown, List.nil_append]
      exact collectAll_eq_of_collect_eq (hapart.mono hparts) hcollect fun d hd => h d (hparts hd)
    · cases s with
      | named name body =>
        rw [collect, uses, List.foldl_cons]
        by_cases hname : name ∈ defs.map Prod.fst
        · -- The name is there, and with it all that the type uses.
          rw [if_pos (List.contains_iff_mem.mpr hname), enter_of_mem hname,
            foldl_enter_of_subset (h (name, body) (.head _) hname)]
        · rw [if_neg (by simpa using hname), enter_of_not_mem hname]
          exact hcollect body (.head _) _ (.behind hapart fun d hd => h d (.tail _ hd))
      | _ => exact absurd rfl hown

/-- Collecting enters the types that are used, in the order in which they are met. -/
theorem collectAll_eq_foldl_enter {ss : List TypeSchema} (hapart : NamedApart (usesOfAll ss))
    {defs : Definitions} (h : Settled defs (usesOfAll ss)) :
    collectAll ss defs = (usesOfAll ss).foldl enter defs := by
  refine collectAll_eq_of_collect_eq hapart (fun s hs defs hdefs => ?_) h
  have hsub : s.uses ⊆ usesOfAll ss := fun d hd => mem_usesOfAll_iff.mpr ⟨s, hs, hd⟩
  exact collect_eq_foldl_enter (hapart.mono hsub) hdefs

end TypeSchema

end Untagged
