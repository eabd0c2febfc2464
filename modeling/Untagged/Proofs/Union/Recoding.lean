import Untagged.Proofs.Unions.Fruit

/-!
# Recoding settles

What is written for a variant need not be decoded as that variant: a candidate that
is tried before may accept it.  But the variant's own candidate accepts it, so the
document falls to that candidate or to an earlier one, and to its own only as the
variant that was written (`Recodable.recode`).  The place of the variant is
therefore a measure that falls with every change, and a value that is copied,
wrapped anew and recoded in any order changes fewer times than there are candidates
(`Recodable.trail_spec`).

`Recodable u rank P` is what is asked of a union: that `rank` is the place of a
variant, that the variants of `P` are read back by their own candidates, and that
recoding does not lead out of `P`.
-/

namespace Untagged

/-- What is written for the body is an object or an array, and the alternative's own
candidate makes the same variant of it. -/
def Alternative.ReadsOwn {α : Type} (A : Alternative α) (b : A.Body) : Prop :=
  (A.shape.encode b).toJson.kind.isContainer = true ∧
    A.candidate.Accepts (A.shape.encode b).toJson (A.wrap b)

theorem Alternative.readsOwn_of_restores {α : Type} {A : Alternative α} {b : A.Body}
    (hcontainer : (A.shape.encode b).toJson.kind.isContainer = true) (h : A.shape.Restores b) :
    A.ReadsOwn b :=
  ⟨hcontainer, Candidate.ofShape_accepts_iff.mpr ⟨b, h, rfl⟩⟩

namespace Union

variable {α : Type}

/-- The union reads the variants of `P` back with their own candidates, which stand
at the places told by `rank`. -/
structure Recodable (u : Union α) (rank : α → Nat) (P : α → Prop) : Prop where
  /-- A candidate makes variants of its own place only. -/
  ranked : ∀ k c, u.candidates[k]? = some c → ∀ v a, c.Accepts v a → rank a = k
  container : ∀ a, P a → (u.toJson (.holding a)).kind.isContainer = true
  own : ∀ a, P a → ∃ c, u.candidates[rank a]? = some c ∧ c.Accepts (u.toJson (.holding a)) a
  closed : ∀ a b, P a → (u.decode (u.toJson (.holding a))).outcome = .ok (.holding b) → P b

/-- What can be done to a value without looking at its variant. -/
inductive Move where
  | copy
  /-- Takes the variant out and wraps it anew. -/
  | rewrap
  /-- Decodes the JSON value of the value. -/
  | recode
  deriving DecidableEq, Repr

/-- The value after a move, if the move succeeds. -/
def move (u : Union α) : Move → OneOf α → Option (OneOf α)
  | .copy, x => some x
  | .rewrap, x => x.variant?.map .holding
  | .recode, x => (u.decode (u.toJson x)).outcome.toOption

/-- The values along a chain of moves, the first one included, if all moves
succeed. -/
def trail (u : Union α) : List Move → OneOf α → Option (List (OneOf α))
  | [], x => some [x]
  | m :: ms, x => (u.move m x).bind fun y => (u.trail ms y).map (x :: ·)

/-- How often neighbours differ. -/
def changes [DecidableEq α] : List α → Nat
  | a :: b :: rest => (if a = b then 0 else 1) + changes (b :: rest)
  | _ => 0

namespace Recodable

variable {u : Union α} {rank : α → Nat} {P : α → Prop}

theorem rank_lt (h : u.Recodable rank P) {a : α} (ha : P a) : rank a < u.candidates.length := by
  obtain ⟨c, hc, -⟩ := h.own a ha
  exact (List.getElem?_eq_some_iff.mp hc).1

theorem recode (h : u.Recodable rank P) {a : α} (ha : P a) :
    ∃ b, (u.decode (u.toJson (.holding a))).outcome = .ok (.holding b) ∧ rank b ≤ rank a ∧
      (rank b = rank a ↔
        ∀ c ∈ u.candidates.take (rank a), c.Rejects (u.toJson (.holding a))) ∧
      (rank b = rank a → b = a) := by
  obtain ⟨c, hc, hac⟩ := h.own a ha
  obtain ⟨j, b, hj, hle, heq⟩ := FirstAccepts.exists_of_accepts hc hac
  have hrank : rank b = j := by
    obtain ⟨d, hd, hb⟩ := hj.accepts
    exact h.ranked j d hd _ b hb
  refine ⟨b, decode_of_firstAccepts (h.container a ha) hj, ?_⟩
  rw [hrank]
  exact ⟨hle, hj.eq_iff_rejects hle, heq⟩

/-- Every move succeeds, and leaves the variant as it is or takes it to an earlier
place. -/
theorem move_spec (h : u.Recodable rank P) {a : α} (ha : P a) (m : Move) :
    ∃ b, u.move m (.holding a) = some (.holding b) ∧ P b ∧ (b = a ∨ rank b < rank a) := by
  cases m with
  | copy => exact ⟨a, rfl, ha, .inl rfl⟩
  | rewrap => exact ⟨a, rfl, ha, .inl rfl⟩
  | recode =>
    obtain ⟨b, hb, hle, -, heq⟩ := h.recode ha
    have hmove : u.move .recode (.holding a) = some (.holding b) := by
      show (u.decode (u.toJson (.holding a))).outcome.toOption = _
      rw [hb]
      rfl
    refine ⟨b, hmove, h.closed a b ha hb, ?_⟩
    by_cases hrank : rank b = rank a
    · exact .inl (heq hrank)
    · exact .inr (by omega)

/-- A chain of moves runs through variants whose places never increase, and each
change takes up at least one place. -/
theorem trail_spec [DecidableEq α] (h : u.Recodable rank P) (moves : List Move) {a : α}
    (ha : P a) :
    ∃ as, u.trail moves (.holding a) = some ((a :: as).map .holding) ∧
      as.length = moves.length ∧ (a :: as).Pairwise (fun b c => rank c ≤ rank b) ∧
      changes (a :: as) ≤ rank a := by
  induction moves generalizing a with
  | nil =>
    refine ⟨[], rfl, rfl, List.pairwise_singleton _ a, ?_⟩
    unfold changes
    omega
  | cons m moves ih =>
    obtain ⟨b, hmove, hb, hstep⟩ := h.move_spec ha m
    obtain ⟨bs, htrail, hlength, hpairwise, hchanges⟩ := ih hb
    have hle : rank b ≤ rank a := by
      rcases hstep with rfl | hlt
      · exact Nat.le_refl _
      · omega
    refine ⟨b :: bs, ?_, ?_, ?_, ?_⟩
    · rw [trail, hmove, Option.bind_some, htrail]
      rfl
    · rw [List.length_cons, hlength, List.length_cons]
    · rw [List.pairwise_cons]
      refine ⟨fun c hc => ?_, hpairwise⟩
      rcases List.mem_cons.mp hc with rfl | hc
      · exact hle
      · exact Nat.le_trans ((List.pairwise_cons.mp hpairwise).1 c hc) hle
    · rw [changes]
      by_cases hab : a = b
      · rw [if_pos hab]
        omega
      · have hlt : rank b < rank a := by
          rcases hstep with heq | hlt
          · exact absurd heq.symm hab
          · exact hlt
        rw [if_neg hab]
        omega

end Recodable

/-- A declared union is recodable where the candidates of its alternatives read their
own variants back. -/
theorem DeclaredBy.recodable {u : Union α} {alternatives : List (Alternative α)}
    (h : u.DeclaredBy alternatives) {P : α → Prop}
    (hown : ∀ A ∈ alternatives, ∀ b, P (A.wrap b) → A.ReadsOwn b)
    (hclosed : ∀ a b, P a →
      (u.decode (u.toJson (.holding a))).outcome = .ok (.holding b) → P b) :
    u.Recodable u.position P where
  ranked k c hc v a ha := h.position_of_accepts hc ha
  container a ha := by
    obtain ⟨A, hA, b, rfl⟩ := h.covers a
    show (u.encode (A.wrap b)).toJson.kind.isContainer = true
    rw [h.encode A hA]
    exact (hown A hA b ha).1
  own a ha := by
    obtain ⟨A, hA, b, rfl⟩ := h.covers a
    obtain ⟨k, hk⟩ := List.getElem?_of_mem hA
    refine ⟨A.candidate, ?_, ?_⟩
    · rw [h.position_wrap hk]
      exact h.getElem?_candidates.mpr ⟨A, hk, rfl⟩
    · show A.candidate.Accepts (u.encode (A.wrap b)).toJson (A.wrap b)
      rw [h.encode A hA]
      exact (hown A hA b ha).2
  closed := hclosed

end Union

/-! ## The unions of the catalogue -/

theorem Named.restores (recordName : String) (a : Named) :
    (Named.record recordName).shape.Restores a := by
  have hnames : (Named.record recordName).names = ["name"] := rfl
  refine Record.restores (by rw [hnames]; decide) ?_
  exact .required (Shape.string_restores _) .done

theorem Labeled.restores (recordName : String) (a : Labeled) :
    (Labeled.record recordName).shape.Restores a := by
  have hnames : (Labeled.record recordName).names = ["name", "label"] := rfl
  refine Record.restores (by rw [hnames]; decide) (.required (Shape.string_restores _) ?_)
  refine .defaulted (fun l _ => ⟨Shape.string_restores l, nofun⟩) ?_
  exact .done

theorem Quantity.restores (q : Quantity) : Quantity.record.shape.Restores q := by
  refine Record.restores (by decide) ?_
  exact .required (Shape.int64_restores _) .done

/-- The variants that are not bananas without a finite length. -/
def FruitVariant.IsMeasured : FruitVariant → Prop
  | apple _ => True
  | banana b => b.lengthCm.isFinite = true

theorem decode_of_isMeasured {a : FruitVariant} (h : a.IsMeasured) :
    (fruitReq.decode (fruitReq.toJson (.holding a))).outcome = .ok (.holding a) := by
  cases a with
  | apple a => exact decode_apple a
  | banana b => exact decode_banana h

theorem fruitReq_recodable : fruitReq.Recodable fruitReq.position FruitVariant.IsMeasured := by
  refine fruitReq_declared.recodable ?_ ?_
  · rw [FruitVariant.alternatives, List.forall_mem_cons, List.forall_mem_singleton]
    exact ⟨fun a _ => Alternative.readsOwn_of_restores rfl a.restores,
      fun b hb => Alternative.readsOwn_of_restores rfl (BananaReq.restores hb)⟩
  · intro a b ha hb
    rw [decode_of_isMeasured ha] at hb
    cases hb
    exact ha

theorem Naming.alternatives_readOwn (plainName labeledName : String) :
    ∀ A ∈ Naming.alternatives plainName labeledName, ∀ b, A.ReadsOwn b := by
  rw [Naming.alternatives, List.forall_mem_cons, List.forall_mem_singleton]
  exact ⟨fun a => Alternative.readsOwn_of_restores rfl (a.restores _),
    fun a => Alternative.readsOwn_of_restores rfl (a.restores _)⟩

theorem namedFirst_recodable : namedFirst.Recodable namedFirst.position (fun _ => True) :=
  namedFirst_declared.recodable (fun A hA b _ => Naming.alternatives_readOwn _ _ A hA b)
    fun _ _ _ _ => trivial

theorem labeledFirst_recodable : labeledFirst.Recodable labeledFirst.position (fun _ => True) :=
  labeledFirst_declared.recodable
    (fun A hA b _ => Naming.alternatives_readOwn _ _ A (List.mem_reverse.mp hA) b)
    fun _ _ _ _ => trivial

theorem tracked_recodable : tracked.Recodable tracked.position (fun _ => True) := by
  refine tracked_declared.recodable ?_ fun _ _ _ _ => trivial
  rw [Named.alternatives, List.forall_mem_singleton]
  exact fun a _ => Alternative.readsOwn_of_restores rfl (a.restores _)

theorem series_recodable : series.Recodable series.position (fun _ => True) := by
  refine series_declared.recodable ?_ fun _ _ _ _ => trivial
  rw [SeriesVariant.alternatives, List.forall_mem_cons, List.forall_mem_singleton]
  refine ⟨fun is _ => Alternative.readsOwn_of_restores rfl ?_,
    fun ls _ => Alternative.readsOwn_of_restores rfl ?_⟩
  · exact Shape.list_restores fun i _ => Shape.int64_restores i
  · exact Shape.list_restores fun l _ => Shape.string_restores l

theorem order_recodable : order.Recodable order.position (fun _ => True) := by
  refine order_declared.recodable ?_ fun _ _ _ _ => trivial
  rw [Quantity.alternatives, List.forall_mem_singleton]
  exact fun q _ => Alternative.readsOwn_of_restores rfl q.restores

/-- A fruit request with finite lengths stays as it is along every chain. -/
theorem trail_of_isMeasured {a : FruitVariant} (h : a.IsMeasured) (moves : List Union.Move) :
    fruitReq.trail moves (.holding a) =
      some (List.replicate (moves.length + 1) (.holding a)) := by
  induction moves with
  | nil => rfl
  | cons m moves ih =>
    have hmove : fruitReq.move m (.holding a) = some (.holding a) := by
      cases m with
      | copy => rfl
      | rewrap => rfl
      | recode =>
        show (fruitReq.decode (fruitReq.toJson (.holding a))).outcome.toOption = _
        rw [decode_of_isMeasured h]
        rfl
    rw [Union.trail, hmove, Option.bind_some, ih]
    rfl

/-- What becomes of the values `P` of a union that are encoded and decoded again.  `rank` is
the place of the candidate that a value belongs to. -/
structure Union.Settles {α : Type} [DecidableEq α] (u : Union α) (rank : α → Nat) (P : α → Prop) :
    Prop where
  /-- What is decoded belongs to the same place or to an earlier one.  It belongs to the same
  one where all candidates before reject what was written, and is the value itself then. -/
  recode : ∀ a, P a → ∃ b, (u.decode (u.toJson (.holding a))).outcome = .ok (.holding b) ∧
    rank b ≤ rank a ∧
    (rank b = rank a ↔
      ∀ c ∈ u.candidates.take (rank a), c.Rejects (u.toJson (.holding a))) ∧
    (rank b = rank a → b = a)
  /-- Along a chain of moves the place never rises, so the value changes fewer times than
  there are candidates. -/
  trail : ∀ a, P a → ∀ moves, ∃ as, u.trail moves (.holding a) = some ((a :: as).map .holding) ∧
    as.length = moves.length ∧ (a :: as).Pairwise (fun b c => rank c ≤ rank b) ∧
    Union.changes (a :: as) ≤ u.candidates.length - 1

theorem Union.Recodable.settles {α : Type} [DecidableEq α] {u : Union α} {rank : α → Nat}
    {P : α → Prop} (h : u.Recodable rank P) : u.Settles rank P where
  recode _ ha := h.recode ha
  trail a ha moves := by
    obtain ⟨as, htrail, hlength, hpairwise, hchanges⟩ := h.trail_spec moves ha
    have hlt := h.rank_lt ha
    exact ⟨as, htrail, hlength, hpairwise, by omega⟩

/-- The unions of the catalogue have candidates that read their own variants back, where a
length is finite. -/
structure CatalogueRecodable : Prop where
  fruitReq : fruitReq.Recodable fruitReq.position FruitVariant.IsMeasured
  namedFirst : namedFirst.Recodable namedFirst.position fun _ => True
  labeledFirst : labeledFirst.Recodable labeledFirst.position fun _ => True
  series : series.Recodable series.position fun _ => True
  tracked : tracked.Recodable tracked.position fun _ => True
  order : order.Recodable order.position fun _ => True

/-- Encoding and decoding again settles: in every union whose candidates read their own
variants back, as those of the catalogue do, and at once for fruit requests. -/
theorem recoding_settles :
    (∀ (α : Type) [DecidableEq α] (u : Union α) (rank : α → Nat) (P : α → Prop),
      u.Recodable rank P → u.Settles rank P) ∧
    (∀ (α : Type) (u : Union α) alternatives, u.DeclaredBy alternatives →
      (∀ A ∈ alternatives, ∀ b, A.ReadsOwn b) → u.Recodable u.position (fun _ => True)) ∧
    CatalogueRecodable ∧
    ∀ a : FruitVariant, a.IsMeasured → ∀ moves, fruitReq.trail moves (.holding a) =
      some (List.replicate (moves.length + 1) (.holding a)) := by
  refine ⟨fun α _ u rank P h => h.settles, fun α u alternatives h hown => ?_, ?_,
    fun a ha moves => trail_of_isMeasured ha moves⟩
  · exact h.recodable (fun A hA b _ => hown A hA b) fun _ _ _ _ => trivial
  · exact ⟨fruitReq_recodable, namedFirst_recodable, labeledFirst_recodable, series_recodable,
      tracked_recodable, order_recodable⟩

/-- A labelled thing becomes the plain one when it is recoded for the first time,
and stays that. -/
theorem labeled_settles :
    let a : Naming := .labeled ⟨"desk", some "oak"⟩
    let b : Naming := .plain ⟨"desk"⟩
    namedFirst.Recodable namedFirst.position (fun _ => True) ∧
    (∃ as, namedFirst.trail [.rewrap, .recode, .copy, .recode] (.holding a) =
        some ((a :: as).map .holding) ∧ Union.changes (a :: as) ≤ 1) ∧
    namedFirst.trail [.rewrap, .recode, .copy, .recode] (.holding a) =
      some ([a, a, b, b, b].map .holding) ∧
    fruitReq.trail [.recode, .rewrap] (.holding (.apple ⟨"Fuji", some true⟩)) =
      some (List.replicate 3 (.holding (.apple ⟨"Fuji", some true⟩))) := by
  intro a b
  obtain ⟨hsettles, hdeclared, -, hfruit⟩ := recoding_settles
  have hnamed := hdeclared Naming namedFirst _ namedFirst_declared
    (Naming.alternatives_readOwn "Named" "Labeled")
  have hmoves := (hsettles Naming namedFirst namedFirst.position _ hnamed).trail a trivial
  obtain ⟨as, has, -, -, hchanges⟩ := hmoves [.rewrap, .recode, .copy, .recode]
  exact ⟨hnamed, ⟨as, has, hchanges⟩, rfl, hfruit (.apple _) trivial [.recode, .rewrap]⟩

end Untagged
