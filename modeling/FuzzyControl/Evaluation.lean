import FuzzyControl.Variable
import FuzzyControl.Rule.Basic
import FuzzyControl.FuzzySet.Algebra
import FuzzyControl.FuzzySet.Lookup
import FuzzyControl.FuzzySet.Crisp

/-!
# Evaluation of rules

Each rule looks up the memberships of its arguments, joins them into its strength, and clips its
consequent at that strength. The clipped sets are gathered by the output that they are about. Those
about one output are then joined by the maximum, and the crisp value of the joint set is read off.

* `strength`: how far the antecedents of a rule hold;
* `fire`: the clipped consequent of a rule;
* `gather`: the clipped sets of all rules, filed under the names of their outputs;
* `evaluate`: the conclusions about the outputs, in the order of the outputs. All rules fire before
  any conclusion is drawn, so a fault of a rule comes before one of a union.
-/

namespace FuzzyControl

/-- Crisp values by the name of an input. -/
abbrev Arguments := Registry Float

/-- What the rules conclude about one output. -/
structure Conclusion where
  aggregated : FuzzySet
  crisp : Float

/-- Conclusions by the name of an output. -/
abbrev Conclusions := Registry Conclusion

namespace Evaluation

/-! ## 1. Rules -/

/-- The set that a proposition names. -/
def resolve (side : Registry Variable) (p : Proposition) : Except Fault FuzzySet :=
  match (side.find? p.subject).bind fun v => v.sets.find? p.set with
  | some s => .ok s
  | none => .error (.unresolved p.subject p.set)

/-- How far an antecedent holds. -/
def grade (lookup : Lookup) (inputs : Registry Variable) (args : Arguments) (p : Proposition) :
    Except Fault Float := do
  let s ← resolve inputs p
  match args.find? p.subject with
  | some x => s.membershipAt x lookup
  | none => .error (.missingArgument p.subject)

/-- How far the antecedents of a rule hold together; zero without antecedents. -/
def strength (lookup : Lookup) (inputs : Registry Variable) (args : Arguments) (r : Rule) :
    Except Fault Float := do
  let memberships ← r.antecedents.mapM (grade lookup inputs args)
  return (r.connective.join memberships).getD 0

/-- The output that a rule concludes about, and its consequent clipped at the strength. -/
def fire (lookup : Lookup) (inputs outputs : Registry Variable) (args : Arguments) (r : Rule) :
    Except Fault (String × FuzzySet) := do
  let w ← strength lookup inputs args r
  let s ← resolve outputs r.consequent
  return (r.consequent.subject, s.mapMembership (clip w))

/-- The clipped sets of the rules, filed under the outputs that they are about. Those about one
output stand in the order of the rules. -/
def gather (lookup : Lookup) (inputs outputs : Registry Variable) (args : Arguments)
    (rules : List Rule) : Except Fault (Registry (List FuzzySet)) :=
  rules.foldlM (fun groups r => do
    let f ← fire lookup inputs outputs args r
    return groups.collect f.1 f.2) .empty

/-! ## 2. Conclusions -/

/-- The conclusions about a list of outputs; one that no rule is about has none. -/
def conclude (policy : ZeroHeight) (m : Defuzzifier) (groups : Registry (List FuzzySet)) :
    List String → Except Fault (List (String × Conclusion))
  | [] => .ok []
  | name :: rest =>
      match groups.find? name with
      | none => conclude policy m groups rest
      | some sets => do
          match ← FuzzySet.unionAll sets with
          | none => conclude policy m groups rest
          | some s =>
              let aggregated := s.rename name
              let others ← conclude policy m groups rest
              return (name, ⟨aggregated, aggregated.crisp m policy⟩) :: others

end Evaluation

/-- What the rules conclude from the arguments. -/
def evaluate (settings : Settings) (m : Defuzzifier) (inputs outputs : Registry Variable)
    (rules : List Rule) (args : Arguments) : Except Fault Conclusions := do
  let groups ← Evaluation.gather settings.lookup inputs outputs args rules
  let entries ← Evaluation.conclude settings.zeroHeight m groups outputs.names
  return Registry.ofList entries

end FuzzyControl
