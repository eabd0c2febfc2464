/-!
# Splitting text

A text split at every occurrence of a separator.  There is always one part more
than there are separators, so parts may be empty.
-/

namespace Untagged.Text

/-- The parts between the separators. -/
def splitChars (separator : Char) : List Char → List (List Char)
  | [] => [[]]
  | c :: cs =>
    if c = separator then [] :: splitChars separator cs
    else
      match splitChars separator cs with
      | [] => [[c]]
      | part :: parts => (c :: part) :: parts

def split (separator : Char) (s : String) : List String :=
  (splitChars separator s.toList).map String.ofList

end Untagged.Text
