/-!
# Ranges of code points

A property of characters is given by the code points that have it, as a list of inclusive ranges.
-/

namespace FuzzyControl.Text

/-- Whether the code point of a character lies in one of the ranges. -/
def inRanges (ranges : List (Nat × Nat)) (c : Char) : Bool :=
  ranges.any fun r => decide (r.1 ≤ c.toNat) && decide (c.toNat ≤ r.2)

end FuzzyControl.Text
