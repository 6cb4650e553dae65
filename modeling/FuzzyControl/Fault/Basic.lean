/-!
# Faults: what can go wrong, by cause

Every operation of the library that can fail does so with a `Fault`, which names the cause and
what it is about. Causes fall into three groups, told apart by the thousands of their code:
reading a rule, filing sets and variables, and solving.

* `Malformation`, `SetFlaw`, `Role` and `Part` say more about four of the causes;
* `Fault` is the cause itself; `Fault.Code` its kind, with a tag and a number.
-/

namespace FuzzyControl

/-- Why a sentence, or a name in it, is not a rule. -/
inductive Malformation where
  /-- Both connectives occur. -/
  | mixedConnectives
  /-- The names do not fall into pairs. -/
  | unpaired (names : Nat)
  | emptyName
  | blankInName (name : String)
  | keywordAsName (name : String)
  deriving DecidableEq

/-- Why a list of samples is not a membership function, or a set is out of place. -/
inductive SetFlaw where
  /-- A sample is no grade. -/
  | noGrade (value membership : Float)
  /-- Two neighbours do not ascend. -/
  | descent (first second : Float)
  /-- The set stands under another name than its own. -/
  | misfiled (key owner : String)
  deriving DecidableEq

/-- The side of a controller that a variable is on. -/
inductive Role where
  | input
  | output
  deriving DecidableEq

/-- What a controller can lack. -/
inductive Part where
  | inputs
  | outputs
  | rules
  deriving DecidableEq

/-- What went wrong. -/
inductive Fault where
  | malformedRule (why : Malformation)
  | noAntecedents
  | noConsequent
  | antecedentArity (index found : Nat)
  | consequentArity (found : Nat)
  | unknownAntecedent
  | unknownConsequent (subject set : String)
  | duplicateVariable (role : Role) (name : String)
  | duplicateSet (name : String)
  | noSuchSet (name : String)
  | invalidSet (name : String) (flaw : SetFlaw)
  | missingArgument (name : String)
  | incomplete (part : Part)
  | domainMismatch (left right : String)
  | unknownDefuzzifier (tag : String)
  | unknownScheme (tag : String)
  | offGrid (set : String) (value : Float)
  | unresolved (subject set : String)
  deriving DecidableEq

namespace Fault

/-! ## 1. Kinds of faults -/

/-- The kind of a fault, without what it is about. -/
inductive Code where
  | ruleMalformed
  | noAntecedents
  | noConsequent
  | antecedentArity
  | consequentArity
  | unknownAntecedentReference
  | unknownConsequentReference
  | duplicateVariable
  | duplicateSet
  | noSuchSet
  | invalidFuzzySet
  | missingArgument
  | emptySystem
  | domainMismatch
  | unknownDefuzzificationMethod
  | unknownInferenceType
  | offGridInput
  | unresolvedReference
  deriving DecidableEq

namespace Code

/-- All kinds, in ascending order of number. -/
def all : List Code :=
  [.ruleMalformed, .noAntecedents, .noConsequent, .antecedentArity, .consequentArity,
    .unknownAntecedentReference, .unknownConsequentReference, .duplicateVariable, .duplicateSet,
    .noSuchSet, .invalidFuzzySet, .missingArgument, .emptySystem, .domainMismatch,
    .unknownDefuzzificationMethod, .unknownInferenceType, .offGridInput, .unresolvedReference]

/-- The number of a kind: rules from 1000, filing from 2000, solving from 3000. -/
def number : Code → Nat
  | .ruleMalformed => 1000
  | .noAntecedents => 1001
  | .noConsequent => 1002
  | .antecedentArity => 1003
  | .consequentArity => 1004
  | .unknownAntecedentReference => 1005
  | .unknownConsequentReference => 1006
  | .duplicateVariable => 2000
  | .duplicateSet => 2001
  | .noSuchSet => 2002
  | .invalidFuzzySet => 2003
  | .missingArgument => 3000
  | .emptySystem => 3001
  | .domainMismatch => 3002
  | .unknownDefuzzificationMethod => 3003
  | .unknownInferenceType => 3004
  | .offGridInput => 3005
  | .unresolvedReference => 3006

/-- The tag of a kind. -/
def tag : Code → String
  | .ruleMalformed => "RULE_MALFORMED"
  | .noAntecedents => "NO_ANTECEDENTS"
  | .noConsequent => "NO_CONSEQUENT"
  | .antecedentArity => "ANTECEDENT_ARITY"
  | .consequentArity => "CONSEQUENT_ARITY"
  | .unknownAntecedentReference => "UNKNOWN_ANTECEDENT_REFERENCE"
  | .unknownConsequentReference => "UNKNOWN_CONSEQUENT_REFERENCE"
  | .duplicateVariable => "DUPLICATE_VARIABLE"
  | .duplicateSet => "DUPLICATE_SET"
  | .noSuchSet => "NO_SUCH_SET"
  | .invalidFuzzySet => "INVALID_FUZZY_SET"
  | .missingArgument => "MISSING_ARGUMENT"
  | .emptySystem => "EMPTY_SYSTEM"
  | .domainMismatch => "DOMAIN_MISMATCH"
  | .unknownDefuzzificationMethod => "UNKNOWN_DEFUZZIFICATION_METHOD"
  | .unknownInferenceType => "UNKNOWN_INFERENCE_TYPE"
  | .offGridInput => "OFF_GRID_INPUT"
  | .unresolvedReference => "UNRESOLVED_REFERENCE"

theorem mem_all (c : Code) : c ∈ all := by cases c <;> decide

/-- Kinds with one number are one kind. -/
theorem number_inj {c d : Code} (h : c.number = d.number) : c = d := by
  cases c <;> cases d <;> first | rfl | (exact absurd h (by decide))

end Code

/-- The kind of a fault. -/
def code : Fault → Code
  | .malformedRule _ => .ruleMalformed
  | .noAntecedents => .noAntecedents
  | .noConsequent => .noConsequent
  | .antecedentArity _ _ => .antecedentArity
  | .consequentArity _ => .consequentArity
  | .unknownAntecedent => .unknownAntecedentReference
  | .unknownConsequent _ _ => .unknownConsequentReference
  | .duplicateVariable _ _ => .duplicateVariable
  | .duplicateSet _ => .duplicateSet
  | .noSuchSet _ => .noSuchSet
  | .invalidSet _ _ => .invalidFuzzySet
  | .missingArgument _ => .missingArgument
  | .incomplete _ => .emptySystem
  | .domainMismatch _ _ => .domainMismatch
  | .unknownDefuzzifier _ => .unknownDefuzzificationMethod
  | .unknownScheme _ => .unknownInferenceType
  | .offGrid _ _ => .offGridInput
  | .unresolved _ _ => .unresolvedReference

end Fault

/-! ## 2. Roles -/

/-- The tag of a role. -/
def Role.tag : Role → String
  | .input => "Input"
  | .output => "Output"

/-- The noun of a role. -/
def Role.noun : Role → String
  | .input => "input"
  | .output => "output"

end FuzzyControl
