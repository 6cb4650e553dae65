import FuzzyControl.Scalar

/-!
# Connectives

The antecedents of a rule are joined by one connective, which says how their memberships make the
strength of the rule: the least of them under `AND`, the greatest under `OR`.
-/

namespace FuzzyControl

/-- How the antecedents of a rule are joined. -/
inductive Connective where
  | and
  | or
  deriving DecidableEq

namespace Connective

/-- The word for the connective in a rule, which is also its tag. -/
def keyword : Connective → String
  | .and => "AND"
  | .or => "OR"

/-- The memberships of the antecedents joined into one; there is none without antecedents. -/
def join {α : Type} [Scalar α] : Connective → List α → Option α
  | .and => least?
  | .or => greatest?

theorem join_eq_none_iff {α : Type} [Scalar α] (c : Connective) (ms : List α) :
    c.join ms = none ↔ ms = [] := by
  cases c
  · exact least?_eq_none_iff ms
  · exact greatest?_eq_none_iff ms

end Connective

/-- A consequent clipped at the strength of its rule. -/
def clip {α : Type} [Scalar α] (strength membership : α) : α := least strength membership

/-- Clipping takes the smaller of the strength and the membership. -/
theorem clip_eq {α : Type} [Scalar α] (strength : α) : clip strength = least strength := rfl

end FuzzyControl
