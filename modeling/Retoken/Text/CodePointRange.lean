/-!
# Ranges of code points

A character property is given as the ranges of the code points that have it. The tables follow Unicode 17.
-/

namespace Retoken.Text

/-- An inclusive range of code points. -/
structure CodePointRange where
  first : Nat
  last : Nat

def CodePointRange.contains (range : CodePointRange) (c : Char) : Bool :=
  range.first ≤ c.toNat && c.toNat ≤ range.last

/-- Whether one of the ranges holds the character. -/
def inRanges (ranges : Array CodePointRange) (c : Char) : Bool :=
  ranges.any (·.contains c)

end Retoken.Text
