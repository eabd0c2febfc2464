import Untagged.Proofs.Schema.Validation
import Untagged.Proofs.Shape.Sameness

/-!
# The schema of a record and its decoder

A member is described by its schema when a value validates against that schema
exactly where the member can be read from it (`Member.Described`).  A record whose
members are described is described by its own schema, for objects
(`Record.valid_iff`): the names that the record admits are the ones that the schema
admits, and an object that is read is read member by member.

The schema knows nothing of arrays, from which a record can be read as well
(`Record.decode_array_pair_iff`).
-/

namespace Untagged

open TypeSchema

variable {root : Json} {order : RecordOrder}

/-! ## What a shape accepts -/

namespace Shape

variable {α : Type}

/-- The shape makes something of the value. -/
def Accepts (shape : Shape α) (v : Json) : Prop := ∃ a, (shape.decode v).outcome = .ok a

theorem string_accepts_iff {v : Json} : Shape.string.Accepts v ↔ v.kind = .string := by
  cases v with
  | string s => exact ⟨fun _ => rfl, fun _ => ⟨s, rfl⟩⟩
  | _ => exact ⟨nofun, nofun⟩

theorem boolean_accepts_iff {v : Json} : Shape.boolean.Accepts v ↔ v.kind = .boolean := by
  cases v with
  | boolean b => exact ⟨fun _ => rfl, fun _ => ⟨b, rfl⟩⟩
  | _ => exact ⟨nofun, nofun⟩

theorem double_accepts_iff {v : Json} : Shape.double.Accepts v ↔ v.kind = .number := by
  cases v with
  | number n => exact ⟨fun _ => rfl, fun _ => ⟨n.toDouble, rfl⟩⟩
  | _ => exact ⟨nofun, nofun⟩

theorem option_accepts_iff {inner : Shape α} {v : Json} :
    inner.option.Accepts v ↔ v.kind = .null ∨ inner.Accepts v := by
  by_cases hv : v = .null
  · subst hv
    exact ⟨fun _ => .inl rfl, fun _ => ⟨none, rfl⟩⟩
  · have hkind : v.kind ≠ .null := by
      cases v with
      | null => exact absurd rfl hv
      | _ => exact nofun
    rw [Accepts, option_decode_of_ne_null hv]
    simp only [Attempt.outcome_map_eq_ok, hkind, false_or, Accepts]
    exact ⟨fun ⟨_, a, ha, _⟩ => ⟨a, ha⟩, fun ⟨a, ha⟩ => ⟨some a, a, ha, rfl⟩⟩

/-- A value validates against the schema of the shape exactly where the shape accepts
it. -/
def Described (shape : Shape α) (order : RecordOrder) (root : Json) : Prop :=
  ∀ depth v, valid root (depth + 1) (Datum.record (schemaMembers order shape.schema)).toJson v =
    true ↔ shape.Accepts v

/-- A schema that names a type, and has at most a format beside it. -/
theorem valid_typed {depth : Nat} {types v : Json} {annotations : List (String × Json)}
    (h : ∀ keyword ∈ annotations.map Prod.fst, keyword = "format") :
    valid root (depth + 1) (.object (("type", types) :: annotations)) v = isOfType v types := by
  have hnone {keyword : String} (hne : keyword ≠ "format") :
      Json.lookup? keyword annotations = none :=
    Json.lookup?_eq_none_iff.mpr fun hmem => hne (h keyword hmem)
  simp [valid, Json.lookup?, hnone]

theorem string_described : Shape.string.Described order root := by
  intro depth v
  rw [string_accepts_iff]
  show valid root (depth + 1) (.object [("type", .string Kind.string.typeName)]) v = true ↔ _
  rw [valid_typed (by simp), isOfType_string_iff]

theorem double_described : Shape.double.Described order root := by
  intro depth v
  rw [double_accepts_iff]
  show valid root (depth + 1) (.object [("type", .string Kind.number.typeName),
    ("format", .string "double")]) v = true ↔ _
  rw [valid_typed (by simp), isOfType_string_iff]

theorem option_boolean_described : Shape.boolean.option.Described order root := by
  intro depth v
  rw [option_accepts_iff, boolean_accepts_iff]
  show valid root (depth + 1) (.object [("type", .array [.string Kind.boolean.typeName,
    .string Kind.null.typeName])]) v = true ↔ _
  rw [valid_typed (by simp)]
  show ["boolean", "null"].contains v.kind.typeName = true ↔ _
  cases v.kind <;> decide

end Shape

/-! ## Members and records -/

namespace TypeSchema

/-- The schema of a property. -/
def propertySchema (order : RecordOrder) (presence : Presence) (schema : TypeSchema) : Datum :=
  .record (schemaMembers order schema ++ if presence = .defaulted then [("default", .null)] else [])

theorem properties_eq_map (members : List (String × Presence × TypeSchema)) :
    properties order members = members.map fun m => (m.1, propertySchema order m.2.1 m.2.2) := by
  induction members with
  | nil => rfl
  | cons m members ih =>
    obtain ⟨name, presence, schema⟩ := m
    rw [properties, ih]
    rfl

end TypeSchema

namespace Member

variable {σ α : Type}

/-- A value validates against the schema of the member exactly where it can be read
into a draft, whichever that is. -/
def Described (m : Member σ) (order : RecordOrder) (root : Json) : Prop :=
  ∀ depth v s, valid root (depth + 1) (propertySchema order m.presence m.schema).toJson v = true ↔
    ∃ t, (m.read v s).outcome = .ok t

theorem SetsBy.described {m : Member σ} {shape : Shape α} {set : α → σ → σ}
    (hm : m.SetsBy shape.decode set) (hschema : m.schema = shape.schema)
    (hpresence : m.presence ≠ .defaulted) (h : shape.Described order root) :
    m.Described order root := by
  intro depth v s
  rw [propertySchema, if_neg hpresence, List.append_nil, hschema, h depth v]
  simp only [hm.read_eq_ok_iff, Shape.Accepts]
  exact ⟨fun ⟨a, ha⟩ => ⟨_, a, ha, rfl⟩, fun ⟨_, a, ha, _⟩ => ⟨a, ha⟩⟩

end Member

namespace Record

variable {σ : Type} {r : Record σ}

/-- The schema of the record, as it stands among the definitions. -/
def definitionOf (r : Record σ) (order : RecordOrder) : Json :=
  (Datum.record (schemaMembers order r.schema.outline)).toJson

/-- Readings succeed together when each of them does, whatever the draft. -/
theorem exists_readAll_iff {ps : Readings σ} (Accepts : Member σ → Json → Prop)
    (h : ∀ p ∈ ps, ∀ s, Accepts p.1 p.2 ↔ ∃ t, (p.1.read p.2 s).outcome = .ok t) (s : σ) :
    (∃ t, (readAll ps s).outcome = .ok t) ↔ ∀ p ∈ ps, Accepts p.1 p.2 := by
  induction ps generalizing s with
  | nil => simp [readAll]
  | cons p ps ih =>
    rw [List.forall_mem_cons] at h
    rw [List.forall_mem_cons, h.1 s]
    constructor
    · rintro ⟨t, ht⟩
      obtain ⟨s', hs', ht⟩ := readAll_cons_eq_ok_iff.mp ht
      exact ⟨⟨s', hs'⟩, (ih h.2 s').mp ⟨t, ht⟩⟩
    · rintro ⟨⟨s', hs'⟩, hps⟩
      obtain ⟨t, ht⟩ := (ih h.2 s').mpr hps
      exact ⟨t, readAll_cons_eq_ok_iff.mpr ⟨s', hs', ht⟩⟩

/-- The names and schemas of the properties of the record. -/
def propertiesOf (r : Record σ) (order : RecordOrder) : List (String × Datum) :=
  r.members.map fun m => (m.name, propertySchema order m.presence m.schema)

theorem map_fst_propertiesOf : (r.propertiesOf order).map Prod.fst = r.names := by
  rw [propertiesOf, List.map_map, names]
  rfl

theorem definitionOf_eq :
    r.definitionOf order =
      (Datum.record (recordSchema order r.description r.closed (.record (r.propertiesOf order))
        ((r.members.filter Member.isRequired).map Member.name))).toJson := by
  have hrequired : requiredNames (r.members.map fun m => (m.name, m.presence, m.schema)) =
      (r.members.filter Member.isRequired).map Member.name := by
    rw [requiredNames, List.filter_map, List.map_map]
    rfl
  rw [definitionOf, schema, outline, schemaMembers, properties_eq_map, List.map_map, hrequired]
  rfl

theorem lookup?_propertiesOf_iff (hnames : r.names.Nodup) {name : String} {s : Json} :
    Json.lookup? name (Datum.membersToJson (r.propertiesOf order)) = some s ↔
      ∃ m ∈ r.members, m.name = name ∧
        (propertySchema order m.presence m.schema).toJson = s := by
  have hnodup : ((Datum.membersToJson (r.propertiesOf order)).map Prod.fst).Nodup := by
    rw [Datum.map_fst_membersToJson, map_fst_propertiesOf]
    exact hnames
  rw [Json.lookup?_eq_some_iff hnodup, Datum.membersToJson_eq_map, propertiesOf, List.map_map,
    List.mem_map]
  simp [Prod.ext_iff]

theorem valid_iff (hr : r.Orderly) (hmembers : ∀ m ∈ r.members, m.Described order root)
    {depth : Nat} {v : Json} (hv : (v.members.map Prod.fst).Nodup) :
    valid root (depth + 2) (r.definitionOf order) v = true ↔
      v.kind = .object ∧ r.shape.Accepts v := by
  rw [definitionOf_eq, valid_recordSchema_iff]
  refine and_congr_right fun hobject => ?_
  obtain ⟨given, rfl⟩ : ∃ given, v = .object given := by
    cases v with
    | object given => exact ⟨given, rfl⟩
    | _ => cases hobject
  have hgiven : (given.map Prod.fst).Nodup := hv
  -- What is to be read is valid where the object's members are.
  have hreadings : (∃ t, (readAll (declared given r.members) r.blank).outcome = .ok t) ↔
      ∀ p ∈ given, ∀ s,
        Json.lookup? p.1 (Datum.membersToJson (r.propertiesOf order)) = some s →
          valid root (depth + 1) s p.2 = true := by
    rw [exists_readAll_iff
      (fun m w => valid root (depth + 1) (propertySchema order m.presence m.schema).toJson w = true)
      fun p hp s => hmembers p.1 ((mem_declared_iff hgiven).mp hp).1 depth p.2 s]
    simp only [lookup?_propertiesOf_iff hr.nodup]
    constructor
    · rintro hall ⟨name, w⟩ hp s ⟨m, hm, rfl, rfl⟩
      exact hall (m, w) ((mem_declared_iff hgiven).mpr ⟨hm, hp⟩)
    · rintro hall ⟨m, w⟩ hp
      obtain ⟨hm, hmem⟩ := (mem_declared_iff hgiven).mp hp
      exact hall (m.name, w) hmem _ ⟨m, hm, rfl, rfl⟩
  constructor
  · rintro ⟨hvalid, hknown, hcomplete⟩
    obtain ⟨t, ht⟩ := hreadings.mpr hvalid
    refine ⟨t, (decode_object_eq_ok_iff hr hgiven).mpr ⟨⟨?_, ?_⟩, ht⟩⟩
    · intro hclosed
      rw [List.forall_mem_map, ← map_fst_propertiesOf]
      exact hknown hclosed
    · intro m hm hrequired
      exact hcomplete m.name (List.mem_map_of_mem (List.mem_filter.mpr ⟨hm, hrequired⟩))
  · rintro ⟨t, ht⟩
    obtain ⟨hadmits, ht⟩ := (decode_object_eq_ok_iff hr hgiven).mp ht
    refine ⟨hreadings.mp ⟨t, ht⟩, fun hclosed m hm => ?_, ?_⟩
    · rw [map_fst_propertiesOf]
      exact hadmits.known hclosed m.1 (List.mem_map_of_mem hm)
    · rw [List.forall_mem_map]
      intro m hm
      obtain ⟨hm, hrequired⟩ := List.mem_filter.mp hm
      exact hadmits.complete m hm hrequired

/-- A record of two members, the first of which must be there, is read from an array
of one element or two. -/
theorem decode_array_pair_iff {m n : Member σ} (hmembers : r.members = [m, n])
    (hm : m.isPositional = true) (hn : n.isPositional = false) {vs : List Json} {t : σ} :
    (r.decode (.array vs)).outcome = .ok t ↔
      ∃ v s, (m.read v r.blank).outcome = .ok s ∧
        ((vs = [v] ∧ s = t) ∨ ∃ w, vs = [v, w] ∧ (n.read w s).outcome = .ok t) := by
  change (r.ofElements vs).outcome = .ok t ↔ _
  rw [ofElements, hmembers]
  match vs with
  | [] => simp [readElements, hm, Attempt.outcome_andThen_eq_ok]
  | [v] => simp [readElements, hn, Attempt.outcome_andThen_eq_ok]
  | [v, w] => simp [readElements, Attempt.outcome_andThen_eq_ok]
  | v :: w :: x :: rest => simp [readElements, Attempt.outcome_andThen_eq_ok]

theorem accepts_array_pair_iff {α β : Type} {m n : Member σ} {shape : Shape α} {shape' : Shape β}
    {set : α → σ → σ} {set' : β → σ → σ} (hmembers : r.members = [m, n])
    (hm : m.isPositional = true) (hn : n.isPositional = false) (hset : m.SetsBy shape.decode set)
    (hset' : n.SetsBy shape'.decode set') {vs : List Json} :
    r.shape.Accepts (.array vs) ↔
      ∃ v rest, vs = v :: rest ∧ shape.Accepts v ∧
        (rest = [] ∨ ∃ w, rest = [w] ∧ shape'.Accepts w) := by
  constructor
  · rintro ⟨t, ht⟩
    obtain ⟨v, s, hs, hrest⟩ := (decode_array_pair_iff hmembers hm hn).mp ht
    obtain ⟨a, ha, -⟩ := hset.read_eq_ok_iff.mp hs
    obtain ⟨rfl, -⟩ | ⟨w, rfl, hw⟩ := hrest
    · exact ⟨v, [], rfl, ⟨a, ha⟩, .inl rfl⟩
    · obtain ⟨b, hb, -⟩ := hset'.read_eq_ok_iff.mp hw
      exact ⟨v, [w], rfl, ⟨a, ha⟩, .inr ⟨w, rfl, b, hb⟩⟩
  · rintro ⟨v, rest, rfl, ⟨a, ha⟩, hrest⟩
    have hs : (m.read v r.blank).outcome = .ok (set a r.blank) :=
      hset.read_eq_ok_iff.mpr ⟨a, ha, rfl⟩
    obtain rfl | ⟨w, rfl, b, hb⟩ := hrest
    · exact ⟨_, (decode_array_pair_iff hmembers hm hn).mpr ⟨v, _, hs, .inl ⟨rfl, rfl⟩⟩⟩
    · have hw : (n.read w (set a r.blank)).outcome = .ok (set' b (set a r.blank)) :=
        hset'.read_eq_ok_iff.mpr ⟨b, hb, rfl⟩
      exact ⟨_, (decode_array_pair_iff hmembers hm hn).mpr ⟨v, _, hs, .inr ⟨w, rfl, hw⟩⟩⟩

end Record

end Untagged
