import Untagged.Proofs.Shape.Visits
import Untagged.Proofs.Union.Declared

/-!
# The trace of a decode

What decoding a document as a union tells, event by event.  A scalar is refused in
silence.  For an object or an array the scan comes first, one event for a property, and
then one candidate after the other: what the attempt with it tells, and what has become of
it (`Trace`).

Where a candidate is read by a shape, its attempt tells what the unions inside it tell,
those that the shape visits (`Shape.Visits`).  They obey the same law, and so do the unions
inside them.  `Traceable` unions are those for which this is so at every depth, which
leaves room for a union that holds values of itself.
-/

namespace Untagged

namespace Union

variable {α : Type}

/-- The alternatives of a union are read by shapes that visit these values, which are of
unions in a class. -/
structure Visiting (Class : (α : Type) → Union α → Prop) (u : Union α)
    (alternatives : List (Alternative α)) (visits : String → Json → List Visit) : Prop where
  candidates : u.candidates = alternatives.map Alternative.candidate
  shapes : ∀ A ∈ alternatives, A.shape.Visits Class (visits A.name)

theorem Visiting.mono {Class Larger : (α : Type) → Union α → Prop} {u : Union α}
    {alternatives : List (Alternative α)} {visits : String → Json → List Visit}
    (h : u.Visiting Class alternatives visits) (hle : ∀ α u, Class α u → Larger α u) :
    u.Visiting Larger alternatives visits where
  candidates := h.candidates
  shapes A hA := (h.shapes A hA).mono hle

/-- The largest class of unions that visit unions of the class only. -/
def Traceable (u : Union α) : Prop :=
  ∃ Class : (α : Type) → Union α → Prop, Class α u ∧
    ∀ β (w : Union β), Class β w → ∃ alternatives visits, w.Visiting Class alternatives visits

namespace Traceable

theorem dest {u : Union α} (h : u.Traceable) :
    ∃ alternatives visits, u.Visiting (fun _ => Traceable) alternatives visits := by
  obtain ⟨Class, hu, hclosed⟩ := h
  obtain ⟨alternatives, visits, hvisiting⟩ := hclosed α u hu
  exact ⟨alternatives, visits, hvisiting.mono fun β w hw => ⟨Class, hw, hclosed⟩⟩

theorem of_visiting {u : Union α} {alternatives : List (Alternative α)}
    {visits : String → Json → List Visit}
    (h : u.Visiting (fun _ => Traceable) alternatives visits) : u.Traceable := by
  refine ⟨fun _ w => ∃ alternatives visits, w.Visiting (fun _ => Traceable) alternatives visits,
    ⟨alternatives, visits, h⟩, ?_⟩
  intro β w hw
  obtain ⟨alternatives', visits', hvisiting⟩ := hw
  exact ⟨alternatives', visits', hvisiting.mono fun _ _ hx => hx.dest⟩

end Traceable

end Union

/-! ## The unions over fruit -/

def AppleReq.slots : List (Slot AppleReq) := [
  .required "cultivar" .string AppleReq.cultivar fun c a => { a with cultivar := c },
  .omitted "mealy" .boolean AppleReq.mealy fun m a => { a with mealy := m }]

def BananaReq.slots : List (Slot BananaReq) := [
  .required "lengthCm" .double BananaReq.lengthCm fun l b => { b with lengthCm := l },
  .omitted "sweet" .boolean BananaReq.sweet fun s b => { b with sweet := s }]

def Basket.slots : List (Slot Basket) := [
  .required "owner" .string Basket.owner fun o b => { b with owner := o },
  .required "fruit" (.list fruitReq.shape) Basket.fruit fun f b => { b with fruit := f }]

def Single.slots : List (Slot Single) := [
  .nullable "fruit" fruitReq.shape Single.fruit fun f s => { s with fruit := f }]

/-- A fruit request holds no unions. -/
theorem fruitReq_visiting (Class : (α : Type) → Union α → Prop) :
    fruitReq.Visiting Class FruitVariant.alternatives fun _ _ => [] where
  candidates := rfl
  shapes A hA := by
    rcases hA with _ | ⟨_, _ | ⟨_, hA⟩⟩
    · refine .quiet (Record.shape_quiet AppleReq.slots rfl fun e he => ?_)
      rcases he with _ | ⟨_, _ | ⟨_, he⟩⟩
      · exact Shape.string_quiet
      · exact Shape.option_quiet Shape.boolean_quiet
      · cases he
    · refine .quiet (Record.shape_quiet BananaReq.slots rfl fun e he => ?_)
      rcases he with _ | ⟨_, _ | ⟨_, he⟩⟩
      · exact Shape.double_quiet
      · exact Shape.option_quiet Shape.boolean_quiet
      · cases he
    · cases hA

/-- The fruit request that a value in a parcel is. -/
def fruitVisits (v : Json) : List Visit := [⟨FruitVariant, fruitReq, v⟩]

def Basket.visits (name : String) : Json → List Visit :=
  if name = "fruit" then listVisits fruitReq.shape fruitVisits else fun _ => []

def ParcelVariant.visits : String → Json → List Visit
  | "Basket" => recordVisits Basket.record Basket.visits
  | "Single" => recordVisits Single.record fun _ => optionVisits fruitVisits
  | _ => fruitVisits

theorem parcel_visiting :
    parcel.Visiting (fun _ => Union.Traceable) ParcelVariant.alternatives ParcelVariant.visits where
  candidates := rfl
  shapes A hA := by
    have hfruit : fruitReq.shape.Visits (fun _ => Union.Traceable) fruitVisits :=
      .union (.of_visiting (fruitReq_visiting _))
    rcases hA with _ | ⟨_, _ | ⟨_, _ | ⟨_, hA⟩⟩⟩
    · refine .record Basket.slots rfl fun e he => ?_
      rcases he with _ | ⟨_, _ | ⟨_, he⟩⟩
      · exact .quiet Shape.string_quiet
      · exact .list hfruit
      · cases he
    · refine .record Single.slots rfl fun e he => ?_
      rcases he with _ | ⟨_, he⟩
      · exact .option hfruit
      · cases he
    · exact .withName "Fruit" hfruit
    · cases hA

namespace Union

variable {α : Type}

/-! ## What is told -/

/-- The events of a scan. -/
def scanned : Json → List Event
  | .object ms => ms.map fun m => .scanning m.1 m.2
  | _ => []

/-- The events of an attempt that has failed, for the reason given. -/
def failedLog (u : Union α) (v : Json) (p : Candidate α × Rejection) : List Event :=
  (p.1.decode v).log ++ [.rejected u.name p.1.name p.2]

/-- What decoding `v` does and tells.  `failed` are the candidates that are tried in vain,
with the reasons. -/
inductive Trace (u : Union α) (v : Json) :
    List (Candidate α × Rejection) → Attempt DecodeError (OneOf α) → Prop where
  | scalar (hv : v.kind.isContainer = false) :
    Trace u v [] ⟨[], .error (.malformed u.name (.kind v.kind))⟩
  | matched (hv : v.kind.isContainer = true) {failed : List (Candidate α × Rejection)}
    {c : Candidate α} {later : List (Candidate α)} {a : α}
    (hcandidates : u.candidates = failed.map Prod.fst ++ c :: later)
    (hfailed : ∀ p ∈ failed, (p.1.decode v).outcome = .error p.2) (hc : c.Accepts v a) :
    Trace u v failed ⟨scanned v ++ (failed.flatMap (u.failedLog v) ++
      ((c.decode v).log ++ [.matched u.name c.name])), .ok (.holding a)⟩
  | exhausted (hv : v.kind.isContainer = true) {failed : List (Candidate α × Rejection)}
    (hcandidates : u.candidates = failed.map Prod.fst)
    (hfailed : ∀ p ∈ failed, (p.1.decode v).outcome = .error p.2) :
    Trace u v failed
      ⟨scanned v ++ failed.flatMap (u.failedLog v), .error (.noMatch u.name u.names)⟩

variable {u : Union α} {v : Json}

theorem log_scanDocument {σ : Type} (inspect : String → Json → σ → σ) (v : Json) (s : σ) :
    (scanDocument inspect v s).log = scanned v := by
  rw [scanDocument, log_scanMembers]
  cases v <;> rfl

/-- The trial in turn: the attempts that fail, and then the one that does not, if there
is one. -/
theorem firstMatch_told (u : Union α) (v : Json) (cs : List (Candidate α)) :
    ∃ failed : List (Candidate α × Rejection),
      (∀ p ∈ failed, (p.1.decode v).outcome = .error p.2) ∧
      ((cs = failed.map Prod.fst ∧
          firstMatch u.name v cs = (failed.flatMap (u.failedLog v), none)) ∨
        ∃ c later a, cs = failed.map Prod.fst ++ c :: later ∧ c.Accepts v a ∧
          firstMatch u.name v cs = (failed.flatMap (u.failedLog v) ++
            ((c.decode v).log ++ [.matched u.name c.name]), some a)) := by
  induction cs with
  | nil => exact ⟨[], List.forall_mem_nil _, .inl ⟨rfl, rfl⟩⟩
  | cons c cs ih =>
    rcases c.rejects_or_accepts v with ⟨r, hr⟩ | ⟨a, ha⟩
    · obtain ⟨failed, hfailed, hends⟩ := ih
      have hstep : ∀ log : List Event, (c.decode v).log ++ .rejected u.name c.name r :: log =
          u.failedLog v (c, r) ++ log := by
        intro log
        rw [failedLog, List.append_assoc]
        rfl
      refine ⟨(c, r) :: failed, List.forall_mem_cons.mpr ⟨hr, hfailed⟩, ?_⟩
      rw [firstMatch_cons_of_rejects hr, hstep]
      rcases hends with ⟨hcs, hmatch⟩ | ⟨d, later, a, hcs, hd, hmatch⟩
      · rw [hmatch, hcs]
        exact .inl ⟨rfl, rfl⟩
      · rw [hmatch, hcs]
        refine .inr ⟨d, later, a, rfl, hd, ?_⟩
        rw [List.flatMap_cons, List.append_assoc]
    · refine ⟨[], List.forall_mem_nil _, .inr ⟨c, cs, a, rfl, ha, ?_⟩⟩
      rw [firstMatch_cons_of_accepts ha]
      rfl

theorem trace_decode (u : Union α) (v : Json) : ∃ failed, u.Trace v failed (u.decode v) := by
  by_cases hv : v.kind.isContainer = true
  · obtain ⟨failed, hfailed, hends⟩ := u.firstMatch_told v u.candidates
    refine ⟨failed, ?_⟩
    rw [decode, decodeInspecting, if_pos hv]
    rcases hends with ⟨hcandidates, hmatch⟩ | ⟨c, later, a, hcandidates, hc, hmatch⟩
    · simp only [hmatch, log_scanDocument, Attempt.telling, Attempt.log_fail, List.append_nil]
      exact .exhausted hv hcandidates hfailed
    · simp only [hmatch, log_scanDocument, Attempt.telling, Attempt.log_succeed, List.append_nil]
      exact .matched hv hcandidates hfailed hc
  · have hscalar := Bool.eq_false_iff.mpr hv
    rw [decode_of_scalar hscalar]
    exact ⟨[], .scalar hscalar⟩

namespace Trace

variable {failed : List (Candidate α × Rejection)} {x : Attempt DecodeError (OneOf α)}

/-- A value is made by the candidate behind as many as were tried in vain. -/
theorem of_ok (h : u.Trace v failed x) {y : OneOf α} (hy : x.outcome = .ok y) :
    ∃ c a, u.candidates[failed.length]? = some c ∧ c.Accepts v a ∧ y = .holding a := by
  cases h with
  | scalar => cases hy
  | @matched _ _ c later a hcandidates _ hc =>
    cases hy
    refine ⟨c, a, ?_, hc, rfl⟩
    rw [hcandidates, ← List.length_map (f := Prod.fst),
      List.getElem?_append_right (Nat.le_refl _), Nat.sub_self]
    rfl
  | exhausted => cases hy

/-- Without a match all candidates were tried in vain. -/
theorem of_noMatch (h : u.Trace v failed x) {name : String} {tried : List String}
    (hx : x.outcome = .error (.noMatch name tried)) : failed.length = u.candidates.length := by
  cases h with
  | scalar => cases hx
  | matched => cases hx
  | exhausted _ hcandidates => rw [hcandidates, List.length_map]

/-- Every event is one of the scan, of an attempt with a candidate, or says what has become
of such an attempt. -/
theorem mem_log (h : u.Trace v failed x) {e : Event} (he : e ∈ x.log) :
    e ∈ scanned v ∨ ∃ c ∈ u.candidates, e ∈ (c.decode v).log ∨
      (∃ r, e = .rejected u.name c.name r) ∨ e = .matched u.name c.name := by
  have hfailed : ∀ p ∈ failed, e ∈ u.failedLog v p →
      e ∈ (p.1.decode v).log ∨ (∃ r, e = .rejected u.name p.1.name r) ∨
        e = .matched u.name p.1.name := by
    intro p _ hp
    rw [failedLog, List.mem_append, List.mem_singleton] at hp
    exact hp.imp id fun hr => .inl ⟨p.2, hr⟩
  cases h with
  | scalar => cases he
  | @matched _ _ c later a hcandidates =>
    rw [hcandidates]
    simp only [List.mem_append, List.mem_flatMap, List.mem_singleton] at he
    rcases he with hscan | ⟨p, hp, hlog⟩ | hlog | hmatched
    · exact .inl hscan
    · exact .inr ⟨p.1, List.mem_append_left _ (List.mem_map_of_mem hp), hfailed p hp hlog⟩
    · exact .inr ⟨c, List.mem_append_right _ (.head _), .inl hlog⟩
    · exact .inr ⟨c, List.mem_append_right _ (.head _), .inr (.inr hmatched)⟩
  | exhausted _ hcandidates =>
    rw [hcandidates]
    rw [List.mem_append, List.mem_flatMap] at he
    rcases he with hscan | ⟨p, hp, hlog⟩
    · exact .inl hscan
    · exact .inr ⟨p.1, List.mem_map_of_mem hp, hfailed p hp hlog⟩

end Trace

/-- The attempt with an alternative tells what its visits tell. -/
theorem Visiting.told {Class : (α : Type) → Union α → Prop} {alternatives : List (Alternative α)}
    {visits : String → Json → List Visit} (h : u.Visiting Class alternatives visits)
    {A : Alternative α} (hA : A ∈ alternatives) (v : Json) :
    (A.candidate.decode v).Told (visits A.name v) :=
  ((h.shapes A hA).told v).map A.wrap

/-! ## The law -/

/-- A decode tells its trials in turn.  There are as many failed attempts as stand before
the candidate that made the value, and as many as there are candidates when nothing
matches.  What an attempt tells is what the unions inside it tell: these visits succeed,
all but the last one when it is why the attempt fails, and each of them is a decode that
tells its trials so. -/
theorem decode_tells_trials {σ : Type} (u : Union α) (inspect : String → Json → σ → σ) (s : σ)
    (v : Json) :
    (∃ failed,
      u.Trace v failed (u.decodeInspecting inspect v s).2 ∧
      (∀ y, (u.decodeInspecting inspect v s).2.outcome = .ok y →
        ∃ c a, u.candidates[failed.length]? = some c ∧ c.Accepts v a ∧ y = .holding a) ∧
      ∀ name tried, (u.decodeInspecting inspect v s).2.outcome = .error (.noMatch name tried) →
        failed.length = u.candidates.length) ∧
    ∀ alternatives visits, u.Visiting (fun _ => Traceable) alternatives visits →
      ∀ A ∈ alternatives, (A.candidate.decode v).Told (visits A.name v) ∧
        ∀ w ∈ visits A.name v, w.union.Traceable ∧
          ∃ failed, w.union.Trace w.value failed w.attempt := by
  rw [decodeInspecting_snd]
  obtain ⟨failed, htrace⟩ := u.trace_decode v
  refine ⟨⟨failed, htrace, fun y hy => htrace.of_ok hy, fun name tried hx =>
    htrace.of_noMatch hx⟩, fun alternatives visits hvisiting A hA => ?_⟩
  refine ⟨hvisiting.told hA v, fun w hw => ?_⟩
  exact ⟨(hvisiting.shapes A hA).mem_class hw, w.union.trace_decode w.value⟩

/-- A basket with something that is no fruit tells of the apple before it, is refused
without a word on the number, and is neither a single fruit nor a fruit request. -/
theorem basket_tells_trials :
    let five : Json := .number (.integer (.ofInt64 5))
    let fruit : Json := .array [.object [("cultivar", .string "Fuji")], five]
    let v : Json := .object [("owner", .string "Ann"), ("fruit", fruit)]
    (∃ failed, parcel.Trace v failed (parcel.decode v) ∧ failed.length = 3) ∧
    (∃ A ∈ ParcelVariant.alternatives, A.name = "Basket" ∧
      (A.candidate.decode v).Told (Basket.visits "fruit" fruit)) ∧
    (parcel.decode v).log = [
      .scanning "owner" (.string "Ann"), .scanning "fruit" fruit,
      .scanning "cultivar" (.string "Fuji"), .matched "FruitReq" "AppleReq",
      .rejected "Parcel" "Basket" (.inner (.malformed "FruitReq" (.kind .number))),
      .rejected "Parcel" "Single" (.unknownField "owner" ["fruit"]),
      .scanning "owner" (.string "Ann"), .scanning "fruit" fruit,
      .rejected "FruitReq" "AppleReq" (.unknownField "owner" ["cultivar", "mealy"]),
      .rejected "FruitReq" "BananaReq" (.unknownField "owner" ["lengthCm", "sweet"]),
      .rejected "Parcel" "Fruit" (.inner (.noMatch "FruitReq" ["AppleReq", "BananaReq"]))] := by
  intro five fruit v
  have hv : (parcel.decode v).outcome = .error (.noMatch "Parcel" ["Basket", "Single", "Fruit"]) :=
    rfl
  obtain ⟨⟨failed, hfailed, -, hcount⟩, hinside⟩ :=
    decode_tells_trials parcel (fun _ _ (n : Nat) => n + 1) 0 v
  rw [decodeInspecting_snd] at hfailed hcount
  have hbasket := hinside _ _ parcel_visiting _ (.head _)
  exact ⟨⟨failed, hfailed, hcount _ _ hv⟩, ⟨_, .head _, rfl, hbasket.1⟩, rfl⟩

end Union

end Untagged
