import Untagged.Unions.Fruit

/-!
# Parcels

A union that holds another one: a basket of fruit requests, a record of at most
one, or a fruit request itself.  A fruit request inside a parcel is decoded by a
trial of its own, and its failure is the reason for which the parcel's variant is
rejected.
-/

namespace Untagged

structure Basket where
  owner : String
  fruit : List (OneOf FruitVariant)
  deriving DecidableEq

namespace Basket

def record : Record Basket where
  name := "Basket"
  description := none
  closed := false
  members := [
    .required "owner" .string Basket.owner fun o b => { b with owner := o },
    .required "fruit" (.list fruitReq.shape) Basket.fruit fun f b => { b with fruit := f }]
  blank := ⟨"", []⟩

def sameFruit : List (OneOf FruitVariant) → List (OneOf FruitVariant) → Bool
  | [], [] => true
  | a :: as, b :: bs => fruitReq.sameValue a b && sameFruit as bs
  | _, _ => false

def same (a b : Basket) : Bool := a.owner == b.owner && sameFruit a.fruit b.fruit

end Basket

/-- At most one fruit request. -/
structure Single where
  fruit : Option (OneOf FruitVariant)
  deriving DecidableEq

namespace Single

def record : Record Single where
  name := "Single"
  description := none
  closed := true
  members := [.nullable "fruit" fruitReq.shape Single.fruit fun f s => { s with fruit := f }]
  blank := ⟨none⟩

def same (a b : Single) : Bool :=
  match a.fruit, b.fruit with
  | none, none => true
  | some x, some y => fruitReq.sameValue x y
  | _, _ => false

end Single

inductive ParcelVariant where
  | basket (b : Basket)
  | single (s : Single)
  | fruit (f : OneOf FruitVariant)
  deriving DecidableEq

namespace ParcelVariant

def fruitShape : Shape (OneOf FruitVariant) := .withName "Fruit" fruitReq.shape

def name : ParcelVariant → String
  | basket _ => "Basket"
  | single _ => "Single"
  | fruit _ => "Fruit"

def encode : ParcelVariant → Datum
  | basket b => Basket.record.encode b
  | single s => Single.record.encode s
  | fruit f => fruitShape.encode f

def same : ParcelVariant → ParcelVariant → Bool
  | basket a, basket b => a.same b
  | single a, single b => a.same b
  | fruit a, fruit b => fruitReq.sameValue a b
  | _, _ => false

end ParcelVariant

def parcel : Union ParcelVariant where
  name := "Parcel"
  candidates := [
    .ofShape "Basket" Basket.record.shape .basket,
    .ofShape "Single" Single.record.shape .single,
    .ofShape "Fruit" ParcelVariant.fruitShape .fruit]
  variantName := ParcelVariant.name
  encode := ParcelVariant.encode
  schemas := [Basket.record.schema, Single.record.schema, ParcelVariant.fruitShape.schema]
  same := ParcelVariant.same

end Untagged
