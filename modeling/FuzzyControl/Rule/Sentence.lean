import FuzzyControl.Rule.Basic
import FuzzyControl.Fault.Basic
import FuzzyControl.Text.Blank

/-!
# Reading rules from sentences

    rule       := "IF" antecedent ("AND" antecedent | "OR" antecedent)* "THEN" consequent
    antecedent := subject "IS" set
    consequent := subject "IS" set

A sentence is read word by word. The keywords only part the names: the names are taken in pairs,
and the last pair is the consequent. `AND` and `OR` do not occur in one sentence.

* `Token.ofText`: the words of a sentence, keywords told from names;
* `Rule.ofText`: the rule of a sentence, or what is wrong with it.
-/

namespace FuzzyControl

/-! ## 1. Tokens -/

/-- The words that are no names. -/
inductive Keyword where
  | condition
  | copula
  | conclusion
  | conjunction
  | disjunction
  deriving DecidableEq

namespace Keyword

/-- The keyword that a word is; upper and lower case differ. -/
def ofWord? (word : String) : Option Keyword :=
  if word = "IF" then some .condition
  else if word = "IS" then some .copula
  else if word = "THEN" then some .conclusion
  else if word = "AND" then some .conjunction
  else if word = "OR" then some .disjunction
  else none

/-- The word of a keyword. -/
def word : Keyword → String
  | .condition => "IF"
  | .copula => "IS"
  | .conclusion => "THEN"
  | .conjunction => "AND"
  | .disjunction => "OR"

theorem ofWord?_word (k : Keyword) : ofWord? k.word = some k := by cases k <;> decide

end Keyword

/-- A word of a sentence. -/
inductive Token where
  | keyword (k : Keyword)
  | name (word : String)
  deriving DecidableEq

namespace Token

/-- The token of a word. -/
def ofWord (word : String) : Token :=
  match Keyword.ofWord? word with
  | some k => .keyword k
  | none => .name word

/-- The tokens of a sentence, in order. -/
def ofText (s : String) : List Token := (Text.words s.toList).map fun w => ofWord (String.ofList w)

/-- The names among the tokens, in order. -/
def names (tokens : List Token) : List String :=
  tokens.filterMap fun
    | .keyword _ => none
    | .name word => some word

end Token

/-! ## 2. Rules -/

/-- Names taken in pairs; an odd one at the end is left over. -/
def Proposition.ofNames : List String → List Proposition
  | subject :: set :: rest => ⟨subject, set⟩ :: ofNames rest
  | _ => []

namespace Rule

/-- The rule whose last proposition is the consequent and whose others are the antecedents. -/
def ofPropositions (connective : Connective) (ps : List Proposition) : Except Fault Rule :=
  match ps.getLast? with
  | none => .error .noConsequent
  | some consequent =>
      if ps.dropLast = [] then .error .noAntecedents
      else .ok (of connective ps.dropLast consequent)

/-- The rule of a list of tokens. -/
def ofTokens (tokens : List Token) : Except Fault Rule :=
  let names := Token.names tokens
  if .keyword .conjunction ∈ tokens ∧ .keyword .disjunction ∈ tokens then
    .error (.malformedRule .mixedConnectives)
  else if names = [] ∨ names.length % 2 ≠ 0 then
    .error (.malformedRule (.unpaired names.length))
  else
    ofPropositions (if .keyword .conjunction ∈ tokens then .and else .or)
      (Proposition.ofNames names)

/-- The rule of a sentence. -/
def ofText (s : String) : Except Fault Rule := ofTokens (Token.ofText s)

end Rule

end FuzzyControl
