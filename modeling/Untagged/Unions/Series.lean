import Untagged.Shape
import Untagged.Union

/-!
# Series

Unions whose body is an array: a series of numbers or a series of labels.  The
empty array is a series of numbers, which are tried first.
-/

namespace Untagged

inductive SeriesVariant where
  | numbers (items : List Int64)
  | labels (items : List String)
  deriving DecidableEq, Repr

namespace SeriesVariant

def numbersShape : Shape (List Int64) := .withName "Numbers" (.list .int64)

def labelsShape : Shape (List String) := .withName "Labels" (.list .string)

def name : SeriesVariant → String
  | numbers _ => "Numbers"
  | labels _ => "Labels"

def encode : SeriesVariant → Datum
  | numbers items => numbersShape.encode items
  | labels items => labelsShape.encode items

end SeriesVariant

def series : Union SeriesVariant where
  name := "Series"
  candidates := [
    .ofShape "Numbers" SeriesVariant.numbersShape .numbers,
    .ofShape "Labels" SeriesVariant.labelsShape .labels]
  variantName := SeriesVariant.name
  encode := SeriesVariant.encode
  schemas := [SeriesVariant.numbersShape.schema, SeriesVariant.labelsShape.schema]
  same a b := a == b

end Untagged
