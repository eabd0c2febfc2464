import Untagged.Proofs.Union.Trial
import Untagged.Unions.Measures
import Untagged.Unions.Named
import Untagged.Unions.Parcel
import Untagged.Unions.Series

/-!
# Declared unions

A declaration lists the variants of a union: for each a name, the type of what it
holds, and the constructor around it.  `DeclaredBy` says what a declaration
provides: the table of candidates, the name and the encoding of a variant, and the
schemas, all in the order of the declaration.  A variant's position is the place
of its name in that order (`position`), and a candidate makes variants of its own
position only (`DeclaredBy.position_of_accepts`).

The unions of the catalogue are declared, each by its table of alternatives.
-/

namespace Untagged

/-- A line of a declaration: the name of a variant, the shape of what it holds,
and its constructor. -/
structure Alternative (α : Type) where
  name : String
  Body : Type
  shape : Shape Body
  wrap : Body → α

namespace Alternative

variable {α : Type}

/-- The candidate that an alternative stands for. -/
def candidate (A : Alternative α) : Candidate α := .ofShape A.name A.shape A.wrap

end Alternative

namespace Union

variable {α : Type}

/-- The place of a variant among the candidates, told by its name. -/
def position (u : Union α) (a : α) : Nat := u.names.idxOf (u.variantName a)

/-- The union is what the declaration of these alternatives provides. -/
structure DeclaredBy (u : Union α) (alternatives : List (Alternative α)) : Prop where
  nodup : (alternatives.map Alternative.name).Nodup
  candidates : u.candidates = alternatives.map Alternative.candidate
  schemas : u.schemas = alternatives.map fun A => A.shape.schema
  variantName : ∀ A ∈ alternatives, ∀ b, u.variantName (A.wrap b) = A.name
  encode : ∀ A ∈ alternatives, ∀ b, u.encode (A.wrap b) = A.shape.encode b
  /-- Every variant comes from one of the constructors. -/
  covers : ∀ a, ∃ A ∈ alternatives, ∃ b, A.wrap b = a

namespace DeclaredBy

variable {u : Union α} {alternatives : List (Alternative α)}

theorem names_eq (h : u.DeclaredBy alternatives) : u.names = alternatives.map Alternative.name := by
  rw [names, h.candidates, List.map_map]
  rfl

theorem getElem?_candidates (h : u.DeclaredBy alternatives) {k : Nat} {c : Candidate α} :
    u.candidates[k]? = some c ↔ ∃ A, alternatives[k]? = some A ∧ A.candidate = c := by
  rw [h.candidates, List.getElem?_map, Option.map_eq_some_iff]

/-- A name stands at one place only, so the alternative at a place fixes the
position of the variants that it wraps. -/
theorem position_wrap (h : u.DeclaredBy alternatives) {k : Nat} {A : Alternative α}
    (hA : alternatives[k]? = some A) (b : A.Body) : u.position (A.wrap b) = k := by
  obtain ⟨hk, hAk⟩ := List.getElem?_eq_some_iff.mp hA
  have hlen : k < (alternatives.map Alternative.name).length := by rwa [List.length_map]
  have hname : (alternatives.map Alternative.name)[k] = A.name := by
    rw [List.getElem_map, hAk]
  rw [position, h.names_eq, h.variantName A (List.mem_of_getElem? hA), ← hname]
  exact h.nodup.idxOf_getElem k hlen

/-- A candidate makes variants of its own name. -/
theorem variantName_of_accepts (h : u.DeclaredBy alternatives) {c : Candidate α}
    (hc : c ∈ u.candidates) {v : Json} {a : α} (ha : c.Accepts v a) :
    u.variantName a = c.name := by
  rw [h.candidates, List.mem_map] at hc
  obtain ⟨A, hA, rfl⟩ := hc
  obtain ⟨b, -, rfl⟩ := Candidate.ofShape_accepts_iff.mp ha
  exact h.variantName A hA b

/-- A candidate makes variants of its own position. -/
theorem position_of_accepts (h : u.DeclaredBy alternatives) {k : Nat} {c : Candidate α}
    (hc : u.candidates[k]? = some c) {v : Json} {a : α} (ha : c.Accepts v a) :
    u.position a = k := by
  obtain ⟨A, hA, rfl⟩ := h.getElem?_candidates.mp hc
  obtain ⟨b, -, rfl⟩ := Candidate.ofShape_accepts_iff.mp ha
  exact h.position_wrap hA b

end DeclaredBy

end Union

/-! ## The declarations of the catalogue -/

def FruitVariant.alternatives : List (Alternative FruitVariant) :=
  [⟨"AppleReq", AppleReq, AppleReq.record.shape, .apple⟩,
   ⟨"BananaReq", BananaReq, BananaReq.record.shape, .banana⟩]

theorem fruitReq_declared : fruitReq.DeclaredBy FruitVariant.alternatives where
  nodup := by simp [FruitVariant.alternatives]
  candidates := rfl
  schemas := rfl
  variantName := by simp [FruitVariant.alternatives, fruitReq, FruitVariant.name]
  encode := by simp [FruitVariant.alternatives, fruitReq, FruitVariant.encode, Record.shape]
  covers := by
    rintro (a | b)
    · exact ⟨_, .head _, a, rfl⟩
    · exact ⟨_, .tail _ (.head _), b, rfl⟩

/-- The two lines of a declaration of things, under the names and in the order of
`namedFirst`. -/
def Naming.alternatives (plainName labeledName : String) : List (Alternative Naming) :=
  [⟨plainName, Named, (Named.record plainName).shape, .plain⟩,
   ⟨labeledName, Labeled, (Labeled.record labeledName).shape, .labeled⟩]

theorem namedFirst_declared : namedFirst.DeclaredBy (Naming.alternatives "Named" "Labeled") where
  nodup := by simp [Naming.alternatives]
  candidates := rfl
  schemas := rfl
  variantName := by simp [Naming.alternatives, namedFirst, Naming.variantName]
  encode := by simp [Naming.alternatives, namedFirst, Naming.encode, Record.shape]
  covers := by
    rintro (a | a)
    · exact ⟨_, .head _, a, rfl⟩
    · exact ⟨_, .tail _ (.head _), a, rfl⟩

theorem labeledFirst_declared :
    labeledFirst.DeclaredBy (Naming.alternatives "Tag" "Note").reverse where
  nodup := by simp [Naming.alternatives]
  candidates := rfl
  schemas := rfl
  variantName := by simp [Naming.alternatives, labeledFirst, Naming.variantName]
  encode := by simp [Naming.alternatives, labeledFirst, Naming.encode, Record.shape]
  covers := by
    rintro (a | a)
    · exact ⟨_, .tail _ (.head _), a, rfl⟩
    · exact ⟨_, .head _, a, rfl⟩

def Named.alternatives : List (Alternative Named) :=
  [⟨"Named", Named, (Named.record "Named").shape, id⟩]

theorem tracked_declared : tracked.DeclaredBy Named.alternatives where
  nodup := by simp [Named.alternatives]
  candidates := rfl
  schemas := rfl
  variantName := by simp [Named.alternatives, tracked]
  encode := by simp [Named.alternatives, tracked, Record.shape]
  covers a := ⟨_, .head _, a, rfl⟩

def SeriesVariant.alternatives : List (Alternative SeriesVariant) :=
  [⟨"Numbers", List Int64, numbersShape, .numbers⟩,
   ⟨"Labels", List String, labelsShape, .labels⟩]

theorem series_declared : series.DeclaredBy SeriesVariant.alternatives where
  nodup := by simp [SeriesVariant.alternatives]
  candidates := rfl
  schemas := rfl
  variantName := by simp [SeriesVariant.alternatives, series, SeriesVariant.name]
  encode := by simp [SeriesVariant.alternatives, series, SeriesVariant.encode]
  covers := by
    rintro (is | ls)
    · exact ⟨_, .head _, is, rfl⟩
    · exact ⟨_, .tail _ (.head _), ls, rfl⟩

def ParcelVariant.alternatives : List (Alternative ParcelVariant) :=
  [⟨"Basket", Basket, Basket.record.shape, .basket⟩,
   ⟨"Single", Single, Single.record.shape, .single⟩,
   ⟨"Fruit", OneOf FruitVariant, ParcelVariant.fruitShape, .fruit⟩]

theorem parcel_declared : parcel.DeclaredBy ParcelVariant.alternatives where
  nodup := by simp [ParcelVariant.alternatives]
  candidates := rfl
  schemas := rfl
  variantName := by simp [ParcelVariant.alternatives, parcel, ParcelVariant.name]
  encode := by simp [ParcelVariant.alternatives, parcel, ParcelVariant.encode, Record.shape]
  covers := by
    rintro (b | s | f)
    · exact ⟨_, .head _, b, rfl⟩
    · exact ⟨_, .tail _ (.head _), s, rfl⟩
    · exact ⟨_, .tail _ (.tail _ (.head _)), f, rfl⟩

def Quantity.alternatives : List (Alternative Quantity) :=
  [⟨"Quantity", Quantity, Quantity.record.shape, id⟩]

theorem order_declared : order.DeclaredBy Quantity.alternatives where
  nodup := by simp [Quantity.alternatives]
  candidates := rfl
  schemas := rfl
  variantName := by simp [Quantity.alternatives, order]
  encode := by simp [Quantity.alternatives, order, Record.shape]
  covers q := ⟨_, .head _, q, rfl⟩

def BoundsVariant.alternatives : List (Alternative BoundsVariant) :=
  [⟨"Range", Range, Range.record.shape, .range⟩,
   ⟨"Quantity", Quantity, Quantity.record.shape, .quantity⟩]

theorem bounds_declared : bounds.DeclaredBy BoundsVariant.alternatives where
  nodup := by simp [BoundsVariant.alternatives]
  candidates := rfl
  schemas := rfl
  variantName := by simp [BoundsVariant.alternatives, bounds, BoundsVariant.name]
  encode := by simp [BoundsVariant.alternatives, bounds, BoundsVariant.encode, Record.shape]
  covers := by
    rintro (r | q)
    · exact ⟨_, .head _, r, rfl⟩
    · exact ⟨_, .tail _ (.head _), q, rfl⟩

def WidthVariant.alternatives : List (Alternative WidthVariant) :=
  [⟨"Byte", UInt8, byteRecord.shape, .byte⟩,
   ⟨"Signed", Int64, signedRecord.shape, .signed⟩,
   ⟨"Unsigned", UInt64, unsignedRecord.shape, .unsigned⟩,
   ⟨"Float", Double, floatRecord.shape, .float⟩]

theorem width_declared : width.DeclaredBy WidthVariant.alternatives where
  nodup := by simp [WidthVariant.alternatives]
  candidates := rfl
  schemas := rfl
  variantName := by simp [WidthVariant.alternatives, width, WidthVariant.name]
  encode := by simp [WidthVariant.alternatives, width, WidthVariant.encode, Record.shape]
  covers := by
    rintro (n | n | n | x)
    · exact ⟨_, .head _, n, rfl⟩
    · exact ⟨_, .tail _ (.head _), n, rfl⟩
    · exact ⟨_, .tail _ (.tail _ (.head _)), n, rfl⟩
    · exact ⟨_, .tail _ (.tail _ (.tail _ (.head _))), x, rfl⟩

end Untagged
