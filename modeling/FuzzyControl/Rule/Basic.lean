import FuzzyControl.Connective

/-!
# Rules

A rule concludes that a variable is some fuzzy set from antecedents of the same kind, which are
all joined by one connective.

* `Proposition`: `subject IS set`;
* `Rule.of`: a rule; a single antecedent has nothing to join, and such a rule always carries `or`;
* `Rule.text`: the sentence `IF a IS x AND b IS y THEN c IS z`.
-/

namespace FuzzyControl

/-! ## 1. Propositions -/

/-- The clause that a variable, the subject, is a set. -/
structure Proposition where
  subject : String
  set : String
  deriving DecidableEq

/-- The clause in words. -/
def Proposition.text (p : Proposition) : String := p.subject ++ " IS " ++ p.set

/-! ## 2. Rules -/

/-- Antecedents, how they are joined, and what follows from them. -/
structure Rule where
  connective : Connective
  antecedents : List Proposition
  consequent : Proposition
  deriving DecidableEq

namespace Rule

/-- The rule of given antecedents and consequent. A single antecedent is not joined to anything,
and carries `or` whatever was asked for, as its sentence does not tell. -/
def of (connective : Connective) (antecedents : List Proposition) (consequent : Proposition) :
    Rule where
  connective := if antecedents.length = 1 then .or else connective
  antecedents := antecedents
  consequent := consequent

/-- Clauses with a word between neighbours. -/
def joined (word : String) : List Proposition → String
  | [] => ""
  | [p] => p.text
  | p :: q :: rest => p.text ++ " " ++ word ++ " " ++ joined word (q :: rest)

/-- The sentence of a rule. -/
def text (r : Rule) : String :=
  "IF " ++ joined r.connective.keyword r.antecedents ++ " THEN " ++ r.consequent.text

/-- The propositions of a rule, the consequent last. -/
def propositions (r : Rule) : List Proposition := r.antecedents ++ [r.consequent]

end Rule

end FuzzyControl
