import Mathlib.Data.List.Forall2
import Untagged.Proofs.Schema.References
import Untagged.Proofs.Union.Declared

/-!
# The schemas of many unions

Unions are asked for in turn, and the definitions made for one are there for the next.
What has been made is told by the types that were used so far: each of them has one
definition, in order of first use, and what the definition says is told by the type alone
(`PublishedUnion.mem_written_iff`).  So a union that is asked for again adds nothing
(`PublishedUnion.definitions_concat_of_mem`), and no reference leads nowhere
(`PublishedUnion.exists_definition_of_reference`).

The unions are those with an outline, so none of them uses itself.  That their names are
distinct is asked of every type that they use, at any depth (`NamedApart`).  Where the
types of the variants use no further types with a name, these are the unions and the
types of their variants.
-/

namespace Untagged

open TypeSchema

/-- The members of a record. -/
def Datum.members : Datum → List (String × Datum)
  | record ms => ms
  | _ => []

/-- A union as it is declared, each of whose variants holds a type with a definition of
its own. -/
structure PublishedUnion where
  Variant : Type
  union : Union Variant
  alternatives : List (Alternative Variant)
  declared : union.DeclaredBy alternatives
  named : ∀ s ∈ union.schemas, ∃ name body, s = .named name body

namespace PublishedUnion

/-- The type of the union, by which it is asked for. -/
def schema (u : PublishedUnion) : TypeSchema := u.union.schema

/-- The union under its name. -/
def definition (u : PublishedUnion) : String × TypeSchema :=
  (u.union.name, .union u.union.name u.union.schemas)

/-- The types that the variants hold, in the order of the declaration. -/
def variantTypes (u : PublishedUnion) : Definitions := u.union.schemas.flatMap ownDefinition

/-- The types that some unions use, in the order of use. -/
def used (us : List PublishedUnion) : Definitions := usesOfAll (us.map schema)

/-- What is answered when the unions are asked for in turn. -/
def answers (us : List PublishedUnion) : List Datum := (request (us.map schema)).1

/-- The definitions that are there when the unions have been asked for in turn. -/
def definitions (us : List PublishedUnion) : Definitions := (request (us.map schema)).2

/-- The definitions as they are written. -/
def writtenDefinitions (us : List PublishedUnion) : Datum :=
  definitionsDatum .ofDefinitions (definitions us)

variable {us : List PublishedUnion} {u : PublishedUnion} {d : String × TypeSchema}

/-! ## What is used -/

theorem used_append (us vs : List PublishedUnion) : used (us ++ vs) = used us ++ used vs := by
  rw [used, usesOfAll_eq_flatMap, List.map_append, List.flatMap_append, ← usesOfAll_eq_flatMap,
    ← usesOfAll_eq_flatMap]
  rfl

theorem mem_used_iff : d ∈ used us ↔ ∃ u ∈ us, d ∈ u.schema.uses := by
  rw [used, mem_usesOfAll_iff]
  simp only [List.mem_map, exists_exists_and_eq_and]

theorem used_mono {us vs : List PublishedUnion} (h : us ⊆ vs) : used us ⊆ used vs := by
  intro d hd
  obtain ⟨u, hu, hd⟩ := mem_used_iff.mp hd
  exact mem_used_iff.mpr ⟨u, h hu, hd⟩

theorem uses_subset_used (hu : u ∈ us) : u.schema.uses ⊆ used us :=
  fun _ hd => mem_used_iff.mpr ⟨u, hu, hd⟩

/-- A union uses itself, and then what its variants use. -/
theorem uses_schema (u : PublishedUnion) :
    u.schema.uses = u.definition :: usesOfAll u.union.schemas :=
  rfl

/-- The types of the variants are used. -/
theorem mem_uses_of_mem_variantTypes (hd : d ∈ u.variantTypes) : d ∈ usesOfAll u.union.schemas := by
  obtain ⟨s, hs, hd⟩ := List.mem_flatMap.mp hd
  refine mem_usesOfAll_iff.mpr ⟨s, hs, ?_⟩
  rw [uses_eq]
  exact List.mem_append_left _ hd

/-- Variants whose types use no others use just these. -/
theorem usesOfAll_schemas_of_plain (h : ∀ d ∈ u.variantTypes, d.2.uses = []) :
    usesOfAll u.union.schemas = u.variantTypes := by
  rw [usesOfAll_eq_flatMap, variantTypes]
  refine List.flatMap_congr fun s hs => ?_
  obtain ⟨name, body, rfl⟩ := u.named s hs
  have hbody : body.uses = [] :=
    h (name, body) (List.mem_flatMap.mpr ⟨_, hs, List.mem_singleton_self _⟩)
  rw [uses, hbody]
  rfl

/-! ## What is made of it -/

section Made

variable (hapart : NamedApart (used us))

include hapart

/-- The definitions are the types that are used, each entered where its name was new. -/
theorem definitions_eq : definitions us = (used us).foldl enter [] :=
  collectAll_eq_foldl_enter hapart fun _ _ h => absurd h List.not_mem_nil

theorem mem_definitions_iff : d ∈ definitions us ↔ d ∈ used us := by
  rw [definitions_eq hapart, mem_foldl_enter_iff hapart]

theorem nodup_definitions : ((definitions us).map Prod.fst).Nodup := by
  rw [definitions_eq hapart]
  refine nodup_foldl_enter ?_ _
  exact List.nodup_nil

theorem map_fst_definitions :
    (definitions us).map Prod.fst = ((used us).map Prod.fst).eraseDups := by
  rw [definitions_eq hapart, map_fst_foldl_enter]
  simp

/-- What is written for a type is told by the type alone. -/
theorem mem_written_iff (hd : d ∈ used us) {x : Datum} :
    (d.1, x) ∈ (writtenDefinitions us).members ↔
      x = .record (schemaMembers .ofDefinitions d.2) := by
  show (d.1, x) ∈ (definitions us).map _ ↔ _
  rw [List.mem_map]
  constructor
  · intro h
    obtain ⟨e, he, heq⟩ := h
    obtain ⟨hname, rfl⟩ := Prod.mk.inj heq
    rw [hapart e ((mem_definitions_iff hapart).mp he) d hd hname]
  · intro h
    exact ⟨d, (mem_definitions_iff hapart).mpr hd, by rw [h]⟩

end Made

theorem map_fst_written (us : List PublishedUnion) :
    (writtenDefinitions us).members.map Prod.fst = (definitions us).map Prod.fst := by
  show ((definitions us).map _).map _ = _
  rw [List.map_map]
  rfl

theorem answers_eq (us : List PublishedUnion) :
    answers us = us.map fun u => reference u.union.name := by
  show (us.map schema).map _ = _
  rw [List.map_map]
  rfl

/-! ## One more request -/

theorem definitions_concat (us : List PublishedUnion) (u : PublishedUnion) :
    definitions (us ++ [u]) = u.schema.collect (definitions us) := by
  show collectAll ((us ++ [u]).map schema) [] = _
  rw [List.map_append, collectAll_append]
  rfl

/-- A union that is defined adds nothing. -/
theorem definitions_concat_of_mem (h : u.union.name ∈ (definitions us).map Prod.fst) :
    definitions (us ++ [u]) = definitions us := by
  rw [definitions_concat]
  exact if_pos (List.contains_iff_mem.mpr h)

/-- A new union is entered, and right behind it what its variants use and is new. -/
theorem definitions_concat_of_not_mem (hapart : NamedApart (used (us ++ [u])))
    (h : u.union.name ∉ (definitions us).map Prod.fst) :
    ∃ added, definitions (us ++ [u]) = definitions us ++ u.definition :: added ∧
      added ⊆ usesOfAll u.union.schemas ∧
      added.map Prod.fst = (((usesOfAll u.union.schemas).map Prod.fst).removeAll
        ((definitions us).map Prod.fst)).eraseDups := by
  have hused : used (us ++ [u]) = used us ++ u.schema.uses := by
    rw [used_append]
    exact congrArg _ (List.append_nil _)
  rw [hused] at hapart
  have hdefs := definitions_eq (hapart.mono (List.subset_append_left _ _))
  obtain ⟨added, heq, hsub, hnames⟩ :=
    exists_foldl_enter (definitions us ++ [u.definition]) (usesOfAll u.union.schemas)
  refine ⟨added, ?_, hsub, ?_⟩
  · rw [definitions_eq (hused ▸ hapart), hused, List.foldl_append, ← hdefs, uses_schema,
      List.foldl_cons, enter_of_not_mem h, heq, List.append_assoc, List.singleton_append]
  · -- The union is not among what its variants use.
    have hself : ∀ name ∈ (usesOfAll u.union.schemas).map Prod.fst, name ≠ u.union.name := by
      intro name hname heq
      obtain ⟨e, he, rfl⟩ := List.mem_map.mp hname
      have hsame : e = u.definition :=
        hapart e (List.mem_append_right _ (.tail _ he)) _ (List.mem_append_right _ (.head _)) heq
      have hself : u.definition ∈ usesOfAll u.union.schemas := hsame ▸ he
      exact not_mem_uses_self u.definition hself
    rw [hnames, List.map_append, List.map_singleton, removeAll_concat]
    congr 1
    refine List.filter_eq_self.mpr fun name hname => ?_
    have hmem : name ∈ (usesOfAll u.union.schemas).map Prod.fst := (List.mem_filter.mp hname).1
    simpa [definition] using hself name hmem

/-! ## References -/

/-- The members of a union's definition: its title, and a reference for each of its
candidates. -/
theorem schemaMembers_definition (u : PublishedUnion) :
    ∃ refs, schemaMembers .ofDefinitions u.definition.2 =
        [("title", .string u.union.name), ("oneOf", .sequence refs)] ∧
      List.Forall₂ (fun c r => ∃ A ∈ u.alternatives, ∃ d ∈ u.variantTypes,
        A.candidate = c ∧ A.shape.schema = .named d.1 d.2 ∧ r = reference d.1)
        u.union.candidates refs := by
  refine ⟨_, rfl, ?_⟩
  rw [alternatives_eq_map, u.declared.candidates, List.forall₂_map_left_iff]
  have hschemas := u.declared.schemas
  rw [hschemas, List.map_map, List.forall₂_map_right_iff, List.forall₂_same]
  intro A hA
  have hmem : A.shape.schema ∈ u.union.schemas := hschemas ▸ List.mem_map_of_mem hA
  obtain ⟨name, body, hnamed⟩ := u.named A.shape.schema hmem
  refine ⟨A, hA, (name, body), ?_, rfl, hnamed, ?_⟩
  · exact List.mem_flatMap.mpr ⟨_, hmem, hnamed ▸ List.mem_singleton_self _⟩
  · show Datum.record (schemaMembers .ofDefinitions A.shape.schema) = _
    rw [hnamed]
    rfl

theorem references_written (us : List PublishedUnion) :
    (writtenDefinitions us).references =
      (definitions us).flatMap fun d =>
        Datum.membersReferences (schemaMembers .ofDefinitions d.2) := by
  show Datum.membersReferences ((definitions us).map _) = _
  rw [Datum.membersReferences_eq_flatMap, List.flatMap_map]
  rfl

/-- Every reference leads to a definition that is there. -/
theorem exists_definition_of_reference (hapart : NamedApart (used us)) {target : String}
    (h : target ∈ Datum.itemsReferences (answers us) ++ (writtenDefinitions us).references) :
    ∃ d ∈ definitions us, target = definitionPath d.1 := by
  rcases List.mem_append.mp h with hanswer | hinside
  · rw [answers_eq, Datum.itemsReferences_eq_flatMap, List.flatMap_map] at hanswer
    obtain ⟨u, hu, htarget⟩ := List.mem_flatMap.mp hanswer
    have hused : u.definition ∈ used us := uses_subset_used hu (.head _)
    exact ⟨u.definition, (mem_definitions_iff hapart).mpr hused, List.mem_singleton.mp htarget⟩
  · rw [references_written] at hinside
    obtain ⟨d, hd, htarget⟩ := List.mem_flatMap.mp hinside
    have hsub := references_schemaMembers .ofDefinitions d.2
    obtain ⟨e, he, rfl⟩ := List.mem_map.mp (hsub htarget)
    rw [mem_definitions_iff hapart] at hd
    exact ⟨e, (mem_definitions_iff hapart).mpr (usesOfAll_closed hd he), rfl⟩

/-! ## The catalogue -/

/-- Fruit requests, under whose name parcels refer to them too. -/
def fruit : PublishedUnion :=
  ⟨_, fruitReq, _, fruitReq_declared, by simp [fruitReq, Record.schema]⟩

/-- The unions of the catalogue. -/
def catalogue : List PublishedUnion := [
  fruit,
  ⟨_, namedFirst, _, namedFirst_declared, by simp [namedFirst, Record.schema]⟩,
  ⟨_, labeledFirst, _, labeledFirst_declared, by simp [labeledFirst, Record.schema]⟩,
  ⟨_, series, _, series_declared, by
    simp [series, SeriesVariant.numbersShape, SeriesVariant.labelsShape, Shape.withName]⟩,
  ⟨_, tracked, _, tracked_declared, by simp [tracked, Record.schema]⟩,
  ⟨_, order, _, order_declared, by simp [order, Record.schema]⟩,
  ⟨_, bounds, _, bounds_declared, by simp [bounds, Record.schema]⟩,
  ⟨_, width, _, width_declared, by simp [width, Record.schema]⟩,
  ⟨_, parcel, _, parcel_declared, by
    simp [parcel, Record.schema, ParcelVariant.fruitShape, Shape.withName]⟩]

/-- Types of the catalogue that have the same name are the same. -/
theorem namedApart_catalogue : NamedApart (used catalogue) :=
  namedApart_of_lookup rfl

/-! ## The law -/

/-- What holds of the definitions when unions have been asked for in turn. -/
structure HangTogether (us : List PublishedUnion) : Prop where
  /-- Every union is defined, and so is the type of each of its variants. -/
  defined : ∀ u ∈ us, u.definition ∈ definitions us ∧ ∀ d ∈ u.variantTypes, d ∈ definitions us
  /-- Nothing is defined twice. -/
  nodup : ((definitions us).map Prod.fst).Nodup
  /-- The definitions stand in order of first use, and only what is used is defined. -/
  inOrder : (definitions us).map Prod.fst = ((used us).map Prod.fst).eraseDups
  /-- A new union is entered right before what its variants use and is not defined yet.
  Where these types use nothing further, that is the variants' types alone. -/
  fresh : ∀ before u after, us = before ++ u :: after →
    u.union.name ∉ (definitions before).map Prod.fst →
    ∃ added, definitions (before ++ [u]) = definitions before ++ u.definition :: added ∧
      added ⊆ usesOfAll u.union.schemas ∧
      added.map Prod.fst = (((usesOfAll u.union.schemas).map Prod.fst).removeAll
        ((definitions before).map Prod.fst)).eraseDups ∧
      ((∀ d ∈ u.variantTypes, d.2.uses = []) →
        added.map Prod.fst = ((u.variantTypes.map Prod.fst).removeAll
          ((definitions before).map Prod.fst)).eraseDups)
  /-- A union that was asked for before, or is defined for the sake of another one, adds
  nothing. -/
  again : ∀ before u after, us = before ++ u :: after →
    u ∈ before ∨ u.union.name ∈ (definitions before).map Prod.fst →
    definitions (before ++ [u]) = definitions before
  /-- Every request for a union is answered by the reference to it. -/
  answered : answers us = us.map fun u => reference u.union.name
  /-- Whatever the answers and the definitions refer to is defined. -/
  closed : ∀ target ∈ Datum.itemsReferences (answers us) ++ (writtenDefinitions us).references,
    ∃ name ∈ (writtenDefinitions us).members.map Prod.fst, target = definitionPath name
  /-- A union's definition is its title and the references to the types of its variants, in
  the order of the candidates. -/
  content : ∀ u ∈ us, ∃ refs,
    (u.union.name, .record [("title", .string u.union.name), ("oneOf", .sequence refs)]) ∈
      (writtenDefinitions us).members ∧
    List.Forall₂ (fun c r => ∃ A ∈ u.alternatives, ∃ d ∈ definitions us,
      A.candidate = c ∧ A.shape.schema = .named d.1 d.2 ∧ r = reference d.1)
      u.union.candidates refs
  /-- The definition of a type is the same, whatever else was asked for. -/
  independent : ∀ vs, NamedApart (used vs) → ∀ d ∈ used us, d ∈ used vs → ∀ x,
    (d.1, x) ∈ (writtenDefinitions us).members ↔ (d.1, x) ∈ (writtenDefinitions vs).members

/-- Unions may be asked for in any order and any number of times, if no two of the types
that they use have the same name. -/
theorem definitions_hang_together (us : List PublishedUnion) (hapart : NamedApart (used us)) :
    HangTogether us where
  defined u hu := by
    have hused : u.schema.uses ⊆ used us := uses_subset_used hu
    refine ⟨(mem_definitions_iff hapart).mpr (hused (.head _)), fun d hd => ?_⟩
    exact (mem_definitions_iff hapart).mpr (hused (.tail _ (mem_uses_of_mem_variantTypes hd)))
  nodup := nodup_definitions hapart
  inOrder := map_fst_definitions hapart
  fresh before u after hus hnew := by
    have hprefix : before ++ [u] ⊆ us := by
      rw [hus, List.append_cons before u after]
      exact List.subset_append_left _ _
    obtain ⟨added, heq, hsub, hnames⟩ :=
      definitions_concat_of_not_mem (hapart.mono (used_mono hprefix)) hnew
    refine ⟨added, heq, hsub, hnames, fun hplain => ?_⟩
    rw [hnames, usesOfAll_schemas_of_plain hplain]
  again before u after hus hdefined := by
    refine definitions_concat_of_mem (hdefined.elim (fun hu => ?_) id)
    have hprefix : before ⊆ us := hus ▸ List.subset_append_left _ _
    have hused : u.definition ∈ used before := uses_subset_used hu (.head _)
    have hmem : u.definition ∈ definitions before :=
      (mem_definitions_iff (hapart.mono (used_mono hprefix))).mpr hused
    exact List.mem_map_of_mem hmem
  answered := answers_eq us
  closed target htarget := by
    obtain ⟨d, hd, rfl⟩ := exists_definition_of_reference hapart htarget
    exact ⟨d.1, map_fst_written us ▸ List.mem_map_of_mem hd, rfl⟩
  content u hu := by
    have hused : u.schema.uses ⊆ used us := uses_subset_used hu
    obtain ⟨refs, hmembers, hrefs⟩ := u.schemaMembers_definition
    refine ⟨refs, (mem_written_iff hapart (d := u.definition) (hused (.head _))).mpr ?_,
      hrefs.imp fun c r h => ?_⟩
    · rw [hmembers]
    · obtain ⟨A, hA, d, hd, hcandidate⟩ := h
      have hmem : d ∈ used us := hused (.tail _ (mem_uses_of_mem_variantTypes hd))
      exact ⟨A, hA, d, (mem_definitions_iff hapart).mpr hmem, hcandidate⟩
  independent vs hvs d hd hd' x := by
    rw [mem_written_iff hapart hd, mem_written_iff hvs hd']

/-- The catalogue from its last union to its first: fruit requests come last, when the
parcels have long brought them along. -/
theorem catalogue_backwards_hangs_together :
    NamedApart (used catalogue.reverse) ∧
    (definitions catalogue.reverse).map Prod.fst =
      ["Parcel", "Basket", "FruitReq", "AppleReq", "BananaReq", "Single", "Fruit",
        "Width", "Byte", "Signed", "Unsigned", "Float", "Bounds", "Range", "Quantity", "Order",
        "Tracked", "Named", "Series", "Numbers", "Labels", "LabeledFirst", "Note", "Tag",
        "NamedFirst", "Labeled"] ∧
    definitions catalogue.reverse = definitions catalogue.tail.reverse ∧
    answers catalogue.reverse = answers catalogue.tail.reverse ++ [reference "FruitReq"] := by
  have hapart : NamedApart (used catalogue.reverse) :=
    namedApart_catalogue.mono (used_mono fun u hu => List.mem_reverse.mp hu)
  have law := definitions_hang_together catalogue.reverse hapart
  refine ⟨hapart, law.inOrder.trans (by decide), ?_, ?_⟩
  · exact law.again catalogue.tail.reverse fruit [] rfl (.inr (by decide))
  · rw [law.answered, answers_eq]
    rfl

end PublishedUnion

end Untagged
