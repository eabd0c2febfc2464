import Untagged.Proofs.Shape.MemberOrder
import Untagged.Union

/-!
# The union values that a decoder comes to

A decoder of a shape tells nothing by itself.  What it tells is what the unions inside it
tell when they are decoded, and `Shape.Visits` says which these are: for every document
the list of `Visit`s in the order in which the decoder comes to them.  A list is gone
through item by item, an object in the order of the document and an array in the order
in which members are declared, each up to the first thing that is rejected.

`Shape.Visits.told` is the law that follows.  The events of an attempt are those of its
visits, one after the other.  Either no visit fails, or the last one alone does, and then
its failure is why the attempt fails.
-/

namespace Untagged

/-- A union and a document that it is decoded from. -/
structure Visit where
  Variant : Type
  union : Union Variant
  value : Json

namespace Visit

/-- The decoding of the union. -/
def attempt (w : Visit) : Attempt DecodeError (OneOf w.Variant) := w.union.decode w.value

def log (w : Visit) : List Event := w.attempt.log

def Succeeds (w : Visit) : Prop := ∃ x, w.attempt.outcome = .ok x

end Visit

/-- An attempt tells what its visits tell, and fails when one of them fails, which is the
last. -/
structure Attempt.Told {α : Type} (x : Attempt Rejection α) (visits : List Visit) : Prop where
  log : x.log = visits.flatMap Visit.log
  failed : (∀ w ∈ visits, w.Succeeds) ∨
    ∃ before w e, visits = before ++ [w] ∧ (∀ w ∈ before, w.Succeeds) ∧
      w.attempt.outcome = .error e ∧ x.outcome = .error (.inner e)

namespace Attempt.Told

variable {α β : Type} {x : Attempt Rejection α} {f : α → Attempt Rejection β}
  {visits later : List Visit} {a : α} {r : Rejection}

theorem nothing (h : x.log = []) : x.Told [] where
  log := h
  failed := .inl nofun

theorem map (h : x.Told visits) (g : α → β) : (x.map g).Told visits where
  log := h.log
  failed := by
    rcases h.failed with hall | ⟨before, w, e, hvisits, hbefore, hw, hx⟩
    · exact .inl hall
    · refine .inr ⟨before, w, e, hvisits, hbefore, hw, ?_⟩
      rw [outcome_map, hx]
      rfl

theorem succeeds_of_ok (h : x.Told visits) (hx : x.outcome = .ok a) : ∀ w ∈ visits, w.Succeeds := by
  rcases h.failed with hall | ⟨before, w, e, -, -, -, herror⟩
  · exact hall
  · rw [hx] at herror
    cases herror

theorem andThen_ok (h : x.Told visits) (hx : x.outcome = .ok a) (hf : (f a).Told later) :
    (x.andThen f).Told (visits ++ later) where
  log := by
    rw [andThen, hx, List.flatMap_append, ← h.log, ← hf.log]
  failed := by
    have hfirst := h.succeeds_of_ok hx
    rcases hf.failed with hall | ⟨before, w, e, hlater, hbefore, hw, hout⟩
    · exact .inl (List.forall_mem_append.mpr ⟨hfirst, hall⟩)
    · refine .inr ⟨visits ++ before, w, e, ?_, List.forall_mem_append.mpr ⟨hfirst, hbefore⟩, hw, ?_⟩
      · rw [hlater, List.append_assoc]
      · rw [outcome_andThen_of_ok hx, hout]

theorem andThen_error (h : x.Told visits) (hx : x.outcome = .error r) :
    (x.andThen f).Told visits where
  log := by
    rw [andThen, hx]
    exact h.log
  failed := by
    have hsame : (x.andThen f).outcome = .error r := outcome_andThen_of_error hx f
    rcases h.failed with hall | ⟨before, w, e, hvisits, hbefore, hw, hout⟩
    · exact .inl hall
    · rw [hx] at hout
      cases hout
      exact .inr ⟨before, w, e, hvisits, hbefore, hw, hsame⟩

/-- What follows an attempt and tells nothing adds no visits. -/
theorem andThen_quiet (h : x.Told visits) (hf : ∀ a, (f a).log = []) :
    (x.andThen f).Told visits := by
  cases hx : x.outcome with
  | ok a =>
    have hboth := h.andThen_ok hx (.nothing (hf a))
    rwa [List.append_nil] at hboth
  | error r => exact h.andThen_error hx

/-- The decoding of a union, as it looks to what is around it. -/
theorem visit (w : Visit) : (w.attempt.mapError Rejection.inner).Told [w] where
  log := by
    rw [List.flatMap_singleton]
    rfl
  failed := by
    cases hw : w.attempt.outcome with
    | ok y => exact .inl (List.forall_mem_singleton.mpr ⟨y, hw⟩)
    | error e =>
      refine .inr ⟨[], w, e, rfl, nofun, hw, ?_⟩
      rw [outcome_mapError, hw]
      rfl

end Attempt.Told

/-! ## What is visited -/

section

variable {α σ : Type}

/-- The visits of a list, up to the first item that is rejected. -/
def itemVisits (item : Shape α) (visits : Json → List Visit) : List Json → List Visit
  | [] => []
  | v :: vs =>
    visits v ++
      match (item.decode v).outcome with
      | .ok _ => itemVisits item visits vs
      | .error _ => []

def listVisits (item : Shape α) (visits : Json → List Visit) : Json → List Visit
  | .array vs => itemVisits item visits vs
  | _ => []

def optionVisits (visits : Json → List Visit) : Json → List Visit
  | .null => []
  | v => visits v

/-- The visits of the members of an object, up to the first that is unknown to a closed
record, repeated or rejected. -/
def objectVisits (r : Record σ) (visits : String → Json → List Visit) (seen : List String) :
    List (String × Json) → List Visit
  | [] => []
  | (name, v) :: rest =>
    match r.member? name with
    | some m =>
      if name ∈ seen then []
      else
        visits name v ++
          match (m.read v r.blank).outcome with
          | .ok _ => objectVisits r visits (name :: seen) rest
          | .error _ => []
    | none => if r.closed then [] else objectVisits r visits seen rest

/-- The visits of the elements of an array, one for each member in declared order, up to
the first that is rejected. -/
def elementVisits (r : Record σ) (visits : String → Json → List Visit) :
    List (Member σ) → List Json → List Visit
  | m :: ms, v :: vs =>
    visits m.name v ++
      match (m.read v r.blank).outcome with
      | .ok _ => elementVisits r visits ms vs
      | .error _ => []
  | _, _ => []

def recordVisits (r : Record σ) (visits : String → Json → List Visit) : Json → List Visit
  | .object ms => objectVisits r visits [] ms
  | .array vs => elementVisits r visits r.members vs
  | _ => []

end

/-! ## Where a visit comes from -/

section

variable {α σ : Type} {v : Json} {w : Visit}

theorem exists_of_mem_itemVisits {item : Shape α} {visits : Json → List Visit} {vs : List Json}
    (hw : w ∈ itemVisits item visits vs) : ∃ x ∈ vs, w ∈ visits x := by
  induction vs with
  | nil => cases hw
  | cons x vs ih =>
    rw [itemVisits, List.mem_append] at hw
    rcases hw with hw | hw
    · exact ⟨x, .head _, hw⟩
    · split at hw
      · obtain ⟨y, hy, hyw⟩ := ih hw
        exact ⟨y, .tail _ hy, hyw⟩
      · cases hw

theorem exists_of_mem_listVisits {item : Shape α} {visits : Json → List Visit}
    (hw : w ∈ listVisits item visits v) : ∃ x, w ∈ visits x := by
  cases v with
  | array vs =>
    obtain ⟨x, -, hx⟩ := exists_of_mem_itemVisits hw
    exact ⟨x, hx⟩
  | _ => cases hw

theorem mem_of_mem_optionVisits {visits : Json → List Visit} (hw : w ∈ optionVisits visits v) :
    w ∈ visits v := by
  cases v with
  | null => cases hw
  | _ => exact hw

namespace Record

variable {r : Record σ} {visits : String → Json → List Visit}

/-- A member that is found is one of the record's, of the name looked for. -/
theorem of_member?_eq_some {name : String} {m : Member σ} (h : r.member? name = some m) :
    m ∈ r.members ∧ m.name = name := by
  rw [member?] at h
  exact ⟨List.mem_of_find?_eq_some h, by simpa using List.find?_some h⟩

theorem exists_of_mem_objectVisits {seen : List String} {given : List (String × Json)}
    (hw : w ∈ objectVisits r visits seen given) : ∃ m ∈ r.members, ∃ x, w ∈ visits m.name x := by
  induction given generalizing seen with
  | nil => cases hw
  | cons p given ih =>
    obtain ⟨name, x⟩ := p
    rw [objectVisits] at hw
    split at hw
    · next m hm =>
      obtain ⟨hmem, rfl⟩ := of_member?_eq_some hm
      split at hw
      · cases hw
      · rw [List.mem_append] at hw
        rcases hw with hw | hw
        · exact ⟨m, hmem, x, hw⟩
        · split at hw
          · exact ih hw
          · cases hw
    · split at hw
      · cases hw
      · exact ih hw

theorem exists_of_mem_elementVisits {ms : List (Member σ)} {given : List Json}
    (hw : w ∈ elementVisits r visits ms given) : ∃ m ∈ ms, ∃ x, w ∈ visits m.name x := by
  induction ms generalizing given with
  | nil => cases hw
  | cons m ms ih =>
    cases given with
    | nil => cases hw
    | cons x given =>
      rw [elementVisits, List.mem_append] at hw
      rcases hw with hw | hw
      · exact ⟨m, .head _, x, hw⟩
      · split at hw
        · obtain ⟨n, hn, y, hy⟩ := ih hw
          exact ⟨n, .tail _ hn, y, hy⟩
        · cases hw

theorem exists_of_mem_recordVisits (hw : w ∈ recordVisits r visits v) :
    ∃ m ∈ r.members, ∃ x, w ∈ visits m.name x := by
  cases v with
  | object ms => exact exists_of_mem_objectVisits hw
  | array vs => exact exists_of_mem_elementVisits hw
  | _ => cases hw

end Record

end

/-- A member that is read by a shape. -/
structure Slot (σ : Type) where
  member : Member σ
  Body : Type
  shape : Shape Body
  set : Body → σ → σ
  setsBy : member.SetsBy shape.decode set

/-- Decoding the shape tells nothing. -/
def Shape.Quiet {α : Type} (shape : Shape α) : Prop := ∀ v, (shape.decode v).log = []

/-- Decoding the shape visits these union values, all of them of unions in a class. -/
inductive Shape.Visits (Class : (α : Type) → Union α → Prop) :
    {α : Type} → Shape α → (Json → List Visit) → Prop where
  /-- A scalar, or anything else that holds no unions. -/
  | quiet {α : Type} {shape : Shape α} (h : shape.Quiet) : Visits Class shape fun _ => []
  | list {α : Type} {item : Shape α} {visits : Json → List Visit}
    (h : Visits Class item visits) : Visits Class item.list (listVisits item visits)
  | option {α : Type} {inner : Shape α} {visits : Json → List Visit}
    (h : Visits Class inner visits) : Visits Class inner.option (optionVisits visits)
  | wrapped {α β : Type} {inner : Shape α} {visits : Json → List Visit} (wrap : α → β)
    (unwrap : β → α) (h : Visits Class inner visits) :
    Visits Class (inner.wrapped wrap unwrap) visits
  | withName {α : Type} {shape : Shape α} {visits : Json → List Visit} (name : String)
    (h : Visits Class shape visits) : Visits Class (shape.withName name) visits
  | record {σ : Type} {r : Record σ} (slots : List (Slot σ))
    {visits : String → Json → List Visit} (hr : r.members = slots.map Slot.member)
    (h : ∀ e ∈ slots, Visits Class e.shape (visits e.member.name)) :
    Visits Class r.shape (recordVisits r visits)
  | union {α : Type} {u : Union α} (hu : Class α u) : Visits Class u.shape fun v => [⟨α, u, v⟩]

namespace Slot

variable {σ : Type}

section

variable {α : Type} (name : String) (shape : Shape α)

def required (get : σ → α) (set : α → σ → σ) : Slot σ where
  member := .required name shape get set
  Body := α
  shape := shape
  set := set
  setsBy _ _ := rfl

def omitted (get : σ → Option α) (set : Option α → σ → σ) : Slot σ where
  member := .omitted name shape get set
  Body := Option α
  shape := shape.option
  set := set
  setsBy _ _ := rfl

def nullable (get : σ → Option α) (set : Option α → σ → σ) : Slot σ where
  member := .nullable name shape get set
  Body := Option α
  shape := shape.option
  set := set
  setsBy _ _ := rfl

end

theorem told {e : Slot σ} {visits : Json → List Visit}
    (h : ∀ v, (e.shape.decode v).Told (visits v)) (v : Json) (s : σ) :
    (e.member.read v s).Told (visits v) := by
  rw [e.setsBy]
  exact (h v).map _

/-- The draft has no say in whether a member is read. -/
theorem outcome_cases (e : Slot σ) (v : Json) :
    (∃ b, ∀ s, (e.member.read v s).outcome = .ok (e.set b s)) ∨
      ∃ r, ∀ s, (e.member.read v s).outcome = .error r := by
  cases hb : (e.shape.decode v).outcome with
  | ok b =>
    refine .inl ⟨b, fun s => ?_⟩
    rw [e.setsBy, Attempt.outcome_map, hb]
    rfl
  | error r =>
    refine .inr ⟨r, fun s => ?_⟩
    rw [e.setsBy, Attempt.outcome_map, hb]
    rfl

end Slot

/-! ## Every shape tells what it visits -/

theorem decodeItems_told {α : Type} {item : Shape α} {visits : Json → List Visit}
    (h : ∀ v, (item.decode v).Told (visits v)) (vs : List Json) :
    (Shape.decodeItems item.decode vs).Told (itemVisits item visits vs) := by
  induction vs with
  | nil => exact .nothing rfl
  | cons v vs ih =>
    rw [Shape.decodeItems, itemVisits]
    cases hv : (item.decode v).outcome with
    | ok a => exact (h v).andThen_ok hv (ih.map _)
    | error r =>
      rw [List.append_nil]
      exact (h v).andThen_error hv

namespace Record

variable {σ : Type} {r : Record σ} {slots : List (Slot σ)} {visits : String → Json → List Visit}

theorem readMembers_told (hr : r.members = slots.map Slot.member)
    (h : ∀ e ∈ slots, ∀ v, (e.shape.decode v).Told (visits e.member.name v))
    (given : List (String × Json)) (seen : List String) (s : σ) :
    (r.readMembers seen given s).Told (objectVisits r visits seen given) := by
  induction given generalizing seen s with
  | nil => exact .nothing rfl
  | cons p given ih =>
    obtain ⟨name, v⟩ := p
    rw [readMembers, objectVisits]
    cases hm : r.member? name with
    | none =>
      dsimp only
      split
      · exact .nothing rfl
      · exact ih seen s
    | some m =>
      dsimp only
      split
      · exact .nothing rfl
      · obtain ⟨hmem, rfl⟩ := of_member?_eq_some hm
        rw [hr, List.mem_map] at hmem
        obtain ⟨e, he, rfl⟩ := hmem
        have htold := Slot.told (h e he) v s
        rcases e.outcome_cases v with ⟨b, hb⟩ | ⟨reason, hreason⟩
        · rw [hb r.blank]
          exact htold.andThen_ok (hb s) (ih (e.member.name :: seen) (e.set b s))
        · rw [hreason r.blank, List.append_nil]
          exact htold.andThen_error (hreason s)

theorem elementVisits_nil (ms : List (Member σ)) : elementVisits r visits ms [] = [] := by
  cases ms <;> rfl

theorem readElements_told
    (h : ∀ e ∈ slots, ∀ v, (e.shape.decode v).Told (visits e.member.name v))
    (given : List Json) (index : Nat) (s : σ) :
    (r.readElements index (slots.map Slot.member) given s).Told
      (elementVisits r visits (slots.map Slot.member) given) := by
  induction slots generalizing given index s with
  | nil => exact .nothing rfl
  | cons e slots ih =>
    rw [List.forall_mem_cons] at h
    rw [List.map_cons]
    cases given with
    | nil =>
      rw [readElements, elementVisits_nil]
      split
      · exact .nothing rfl
      · have hrest := ih h.2 [] (index + 1) s
        rwa [elementVisits_nil] at hrest
    | cons v given =>
      have htold := Slot.told h.1 v s
      rw [readElements, elementVisits]
      rcases e.outcome_cases v with ⟨b, hb⟩ | ⟨reason, hreason⟩
      · rw [hb r.blank]
        exact htold.andThen_ok (hb s) (ih h.2 given (index + 1) (e.set b s))
      · rw [hreason r.blank, List.append_nil]
        exact htold.andThen_error (hreason s)

theorem decode_told (hr : r.members = slots.map Slot.member)
    (h : ∀ e ∈ slots, ∀ v, (e.shape.decode v).Told (visits e.member.name v)) (v : Json) :
    (r.decode v).Told (recordVisits r visits v) := by
  cases v with
  | object ms =>
    refine (readMembers_told hr h ms [] r.blank).andThen_quiet fun s => ?_
    cases r.missing? ms <;> rfl
  | array vs =>
    have helements := readElements_told (r := r) h vs 0 r.blank
    rw [← hr] at helements
    refine helements.andThen_quiet fun s => ?_
    split <;> rfl
  | _ => exact .nothing rfl

/-- A record tells nothing when none of its members does. -/
theorem shape_quiet (slots : List (Slot σ)) (hr : r.members = slots.map Slot.member)
    (h : ∀ e ∈ slots, e.shape.Quiet) : r.shape.Quiet := by
  intro v
  have htold : (r.decode v).Told (recordVisits r (fun _ _ => []) v) :=
    decode_told hr (fun e he x => .nothing (h e he x)) v
  have hnone : recordVisits r (fun _ _ => []) v = [] := by
    by_contra hne
    obtain ⟨w, hw⟩ := List.exists_mem_of_ne_nil _ hne
    obtain ⟨m, -, x, hx⟩ := exists_of_mem_recordVisits hw
    cases hx
  rw [hnone] at htold
  exact htold.log

end Record

namespace Shape

theorem string_quiet : Shape.string.Quiet := by
  intro v
  cases v <;> rfl

theorem boolean_quiet : Shape.boolean.Quiet := by
  intro v
  cases v <;> rfl

theorem double_quiet : Shape.double.Quiet := by
  intro v
  cases v <;> rfl

theorem option_quiet {α : Type} {inner : Shape α} (h : inner.Quiet) : inner.option.Quiet := by
  intro v
  cases v with
  | null => rfl
  | _ => exact h _

end Shape

namespace Shape.Visits

variable {Class : (α : Type) → Union α → Prop} {α : Type} {shape : Shape α}
  {visits : Json → List Visit}

/-- What decoding tells is what the visits tell, up to the first of them that fails. -/
theorem told (h : shape.Visits Class visits) (v : Json) : (shape.decode v).Told (visits v) := by
  induction h generalizing v with
  | quiet hquiet => exact .nothing (hquiet v)
  | list _ ih =>
    cases v with
    | array vs => exact decodeItems_told ih vs
    | _ => exact .nothing rfl
  | option _ ih =>
    cases v with
    | null => exact .nothing rfl
    | _ => exact (ih _).map _
  | wrapped wrap unwrap _ ih => exact (ih v).map wrap
  | withName name _ ih => exact ih v
  | record _ hr _ ih => exact Record.decode_told hr ih v
  | @union β u hu => exact .visit ⟨β, u, v⟩

/-- Every union that is visited is in the class. -/
theorem mem_class (h : shape.Visits Class visits) {v : Json} {w : Visit} (hw : w ∈ visits v) :
    Class w.Variant w.union := by
  induction h generalizing v with
  | quiet => cases hw
  | list _ ih =>
    obtain ⟨x, hx⟩ := exists_of_mem_listVisits hw
    exact ih hx
  | option _ ih => exact ih (mem_of_mem_optionVisits hw)
  | wrapped _ _ _ ih | withName _ _ ih => exact ih hw
  | record _ hr _ ih =>
    obtain ⟨m, hm, x, hx⟩ := Record.exists_of_mem_recordVisits hw
    rw [hr, List.mem_map] at hm
    obtain ⟨e, he, rfl⟩ := hm
    exact ih e he hx
  | union hu =>
    rw [List.mem_singleton] at hw
    rw [hw]
    exact hu

theorem mono {Larger : (α : Type) → Union α → Prop} (hle : ∀ α u, Class α u → Larger α u)
    (h : shape.Visits Class visits) : shape.Visits Larger visits := by
  induction h with
  | quiet hquiet => exact .quiet hquiet
  | list _ ih => exact .list ih
  | option _ ih => exact .option ih
  | wrapped wrap unwrap _ ih => exact .wrapped wrap unwrap ih
  | withName name _ ih => exact .withName name ih
  | record slots hr _ ih => exact .record slots hr ih
  | union hu => exact .union (hle _ _ hu)

end Shape.Visits

end Untagged
