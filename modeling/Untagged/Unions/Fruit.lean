import Untagged.Shape.Record
import Untagged.Union

/-!
# Fruit requests

`FruitReq` is the body of a fruit request: an apple or a banana.  Neither allows
members beyond its own and their required members have different names and types,
so a body is at most one of them.
-/

namespace Untagged

structure AppleReq where
  cultivar : String
  mealy : Option Bool
  deriving DecidableEq, Repr

namespace AppleReq

def record : Record AppleReq where
  name := "AppleReq"
  description := some "Apple variant of a fruit request."
  closed := true
  members := [
    .required "cultivar" .string AppleReq.cultivar fun c a => { a with cultivar := c },
    .omitted "mealy" .boolean AppleReq.mealy fun m a => { a with mealy := m }]
  blank := ⟨"", none⟩

end AppleReq

structure BananaReq where
  lengthCm : Double
  sweet : Option Bool
  deriving DecidableEq, Repr

namespace BananaReq

def record : Record BananaReq where
  name := "BananaReq"
  description := some "Banana variant of a fruit request."
  closed := true
  members := [
    .required "lengthCm" .double BananaReq.lengthCm fun l b => { b with lengthCm := l },
    .omitted "sweet" .boolean BananaReq.sweet fun s b => { b with sweet := s }]
  blank := ⟨.zero, none⟩

/-- Equality with the lengths compared as numbers. -/
def same (a b : BananaReq) : Bool := a.lengthCm.equal b.lengthCm && a.sweet == b.sweet

end BananaReq

inductive FruitVariant where
  | apple (a : AppleReq)
  | banana (b : BananaReq)
  deriving DecidableEq, Repr

namespace FruitVariant

def name : FruitVariant → String
  | apple _ => "AppleReq"
  | banana _ => "BananaReq"

def encode : FruitVariant → Datum
  | apple a => AppleReq.record.encode a
  | banana b => BananaReq.record.encode b

def same : FruitVariant → FruitVariant → Bool
  | apple a, apple b => a == b
  | banana a, banana b => a.same b
  | _, _ => false

end FruitVariant

/-- Fruit requests: apples are tried first. -/
def fruitReq : Union FruitVariant where
  name := "FruitReq"
  candidates := [
    .ofShape "AppleReq" AppleReq.record.shape .apple,
    .ofShape "BananaReq" BananaReq.record.shape .banana]
  variantName := FruitVariant.name
  encode := FruitVariant.encode
  schemas := [AppleReq.record.schema, BananaReq.record.schema]
  same := FruitVariant.same

end Untagged
