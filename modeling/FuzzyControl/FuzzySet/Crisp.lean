import FuzzyControl.FuzzySet.Basic
import FuzzyControl.Defuzzifier
import FuzzyControl.Settings

/-!
# The crisp value of a fuzzy set

The defuzzifier decides wherever it has an answer. Where it has none, a set without samples is
worth zero, and the policy for zero height decides over any other set.
-/

namespace FuzzyControl.FuzzySet

/-- The mean of the values. The sum starts from negative zero, which adds nothing to any value. -/
def midpoint (s : FuzzySet) : Float := s.grid.foldl (· + ·) (-0.0) / Float.ofNat s.grid.length

/-- The crisp value of a set. -/
def crisp (s : FuzzySet) (m : Defuzzifier) (policy : ZeroHeight) : Float :=
  match m.crispOf? s.grid s.memberships with
  | some x => x
  | none =>
      if s.samples.isEmpty then 0
      else match policy with
        | .zero => 0
        | .midpoint => s.midpoint

end FuzzyControl.FuzzySet
