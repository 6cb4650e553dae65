import FuzzyControl.Proofs.Evaluation.Interchange

/-!
# The order of the rules, and how often each occurs

What is concluded about an output does not say in which order the rules were taken, nor how often
each was. So rule lists with the same members have the same conclusions, up to the sign of a zero.

* `evaluate_rule_order`: evaluations of rule lists with the same members.
-/

namespace FuzzyControl.Evaluation

open Double

/-- **The conclusions depend on which rules there are, not on their order, nor on how often each
occurs.** Numbers are compared as doubles, where the two zeros are equal, and what is not a number
is equal to itself. -/
theorem evaluate_rule_order (settings : Settings) (m : Defuzzifier)
    (inputs outputs : Registry Variable) (args : Arguments) (rules rules' : List Rule)
    (hout : ValidSets outputs) (hsame : ∀ r, r ∈ rules ↔ r ∈ rules') :
    ((∃ result, evaluate settings m inputs outputs rules args = .ok result) ↔
      ∃ result, evaluate settings m inputs outputs rules' args = .ok result) ∧
    ∀ result result', evaluate settings m inputs outputs rules args = .ok result →
      evaluate settings m inputs outputs rules' args = .ok result' →
      result.names = result'.names ∧
      List.Forall₂ (fun e e' => e.1 = e'.1 ∧ e.2.aggregated.agrees e'.2.aggregated = true ∧
        Alike e.2.crisp e'.2.crisp) result.entries result'.entries :=
  (Interchangeable.of_mem_iff hout hsame).evaluate hout

/-- Two rules about the fan, the other way round, and one of them twice. -/
theorem evaluate_rule_order_switch : ValidSets (twoWay "fan") ∧
    (∀ r, r ∈ [quietRule, fanRule] ↔ r ∈ [fanRule, quietRule, fanRule]) ∧
    ∃ result result',
      evaluate { lookup := .interpolate } .centroid (switches "noise" "heat" (by decide))
        (twoWay "fan") [quietRule, fanRule] heatWithNoise = .ok result ∧
      evaluate { lookup := .interpolate } .centroid (switches "noise" "heat" (by decide))
        (twoWay "fan") [fanRule, quietRule, fanRule] heatWithNoise = .ok result' ∧
      result.names = result'.names ∧
      List.Forall₂ (fun e e' => e.1 = e'.1 ∧ e.2.aggregated.agrees e'.2.aggregated = true ∧
        Alike e.2.crisp e'.2.crisp) result.entries result'.entries := by
  have hvalid := validSets_twoWay "fan"
  have hsame : ∀ r, r ∈ [quietRule, fanRule] ↔ r ∈ [fanRule, quietRule, fanRule] := by
    intro r
    simp only [List.mem_cons, List.not_mem_nil, or_false]
    tauto
  obtain ⟨hok, hagree⟩ := evaluate_rule_order { lookup := .interpolate } .centroid
    (switches "noise" "heat" (by decide)) (twoWay "fan") heatWithNoise [quietRule, fanRule]
    [fanRule, quietRule, fanRule] hvalid hsame
  obtain ⟨result', h'⟩ := hok.1 ⟨partlyOff, evaluate_partlyOff⟩
  exact ⟨hvalid, hsame, partlyOff, result', evaluate_partlyOff, h',
    hagree partlyOff result' evaluate_partlyOff h'⟩

end FuzzyControl.Evaluation
