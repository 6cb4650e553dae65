import FuzzyControl.Fault.Basic
import FuzzyControl.Decimal.Positional
import FuzzyControl.Text.Quoted

/-!
# The wording of faults

One sentence for each fault. Names of variables and sets stand as they are; a name that is itself
at fault, and a key under which a set is misfiled, stand between quotes.
-/

namespace FuzzyControl

/-- The wording of a malformation. -/
def Malformation.message : Malformation → String
  | .mixedConnectives => "AND and OR cannot be mixed in one rule"
  | .unpaired names => "expected variable/set pairs, found " ++ toString names ++ " names"
  | .emptyName => "empty name: " ++ Text.quoted ""
  | .blankInName name => "name contains whitespace: " ++ Text.quoted name
  | .keywordAsName name => "name is a keyword: " ++ Text.quoted name

/-- The wording of a flaw. -/
def SetFlaw.message : SetFlaw → String
  | .noGrade value membership =>
      "sample (" ++ Decimal.text value ++ ", " ++ Decimal.text membership
        ++ ") is outside the unit interval"
  | .descent first second =>
      "values " ++ Decimal.text first ++ " and " ++ Decimal.text second
        ++ " are not strictly ascending"
  | .misfiled key owner => "filed under " ++ Text.quoted key ++ " in variable " ++ owner

/-- The wording of a lack. -/
def Part.message : Part → String
  | .inputs => "No inputs defined"
  | .outputs => "No outputs defined"
  | .rules => "No rules defined"

/-- The wording of a fault. -/
def Fault.message : Fault → String
  | .malformedRule why => "Rule string is malformed: " ++ why.message
  | .noAntecedents => "No antecedents (inputs) specified"
  | .noConsequent => "No consequent (output) specified"
  | .antecedentArity index found =>
      "Antecedent " ++ toString index ++ " must have exactly two parts, found " ++ toString found
  | .consequentArity found => "Consequent must have exactly two parts, found " ++ toString found
  | .unknownAntecedent =>
      "Antecedents could not be created (at least one set or variable does not exist)"
  | .unknownConsequent subject set =>
      "Consequent cannot be created (variable " ++ subject ++ " or set " ++ set ++ " do not exist)"
  | .duplicateVariable role name =>
      "An " ++ role.noun ++ " with the name " ++ name ++ " already exists"
  | .duplicateSet name => "A set with the name " ++ name ++ " already exists"
  | .noSuchSet name => "No set with the name " ++ name ++ " exists"
  | .invalidSet name flaw => "Invalid fuzzy set " ++ name ++ ": " ++ flaw.message
  | .missingArgument name =>
      "Not all input variables have an argument provided (missing " ++ name ++ ")"
  | .incomplete part => "Cannot solve: " ++ part.message
  | .domainMismatch left right =>
      "Fuzzy sets " ++ left ++ " and " ++ right ++ " are not defined over the same value grid"
  | .unknownDefuzzifier tag => "Unknown defuzzification method: " ++ tag
  | .unknownScheme tag => "Unknown inference type: " ++ tag
  | .offGrid set value => "Value " ++ Decimal.text value ++ " is not a sample of set " ++ set
  | .unresolved subject set =>
      "Unable to find variable " ++ subject ++ " with set " ++ set

end FuzzyControl
