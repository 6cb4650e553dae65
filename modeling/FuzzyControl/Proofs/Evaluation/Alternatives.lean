import FuzzyControl.Proofs.Evaluation.Interchange
import FuzzyControl.Proofs.Evaluation.Validity

/-!
# A rule with alternatives, and one rule for each of them

A rule whose antecedents are joined by `OR` holds as far as the antecedent that holds the most. That
one alone makes a rule of the same strength, and no other makes a stronger one. So the rule can be
replaced by one rule for each antecedent, as the greatest contribution is what counts.

* `Rule.alternatives`: the rules with one antecedent each;
* `Interchangeable.alternatives`: they can stand for the rule;
* `evaluate_alternatives`: evaluations where they stand in its place.
-/

namespace FuzzyControl

open Double Results

/-- One rule for each antecedent, with the same consequent. -/
def Rule.alternatives (r : Rule) : List Rule :=
  r.antecedents.map fun p => Rule.of .or [p] r.consequent

namespace Evaluation

variable {lookup : Lookup} {inputs outputs : Registry Variable} {args : Arguments} {r r' : Rule}

/-! ## 1. The strength of a rule and of its alternatives -/

/-- A rule with one antecedent holds as far as this does. -/
theorem strength_single_iff {p c : Proposition} {w : Float} :
    Strength lookup inputs args (Rule.of .or [p] c) w ↔ Holds lookup inputs args p w := by
  constructor
  · rintro ⟨ms, hms, rfl⟩
    obtain ⟨m, rest, hm, hrest, rfl⟩ := List.forall₂_cons_left_iff.1 hms
    cases hrest
    exact hm
  · intro h
    exact ⟨[w], .cons h .nil, rfl⟩

/-- A rule with alternatives holds as far as one of them does. -/
theorem Strength.attained {w : Float} (h : Strength lookup inputs args r w)
    (hor : r.connective = .or) (hne : r.antecedents ≠ []) :
    ∃ p ∈ r.antecedents, Holds lookup inputs args p w := by
  obtain ⟨ms, hms, rfl⟩ := h
  rw [hor]
  cases hjoin : Connective.or.join ms with
  | none =>
    obtain rfl := (Connective.join_eq_none_iff _ _).1 hjoin
    exact absurd (List.forall₂_nil_right_iff.1 hms) hne
  | some w => exact exists_mem_left hms w (mem_of_greatest? hjoin)

/-- No alternative holds further, if what holds is a number. -/
theorem Strength.highest {w : Float} (h : Strength lookup inputs args r w)
    (hor : r.connective = .or)
    (hnum : ∀ p ∈ r.antecedents, ∀ n, Holds lookup inputs args p n → n.isNaN = false) :
    ∀ p ∈ r.antecedents, ∀ n, Holds lookup inputs args p n → n ≤ w := by
  obtain ⟨ms, hms, rfl⟩ := h
  rw [hor]
  intro p hp n hn
  obtain ⟨n', hn', hp'⟩ := exists_mem_right hms p hp
  -- the membership of an antecedent is the one in the list
  obtain rfl : n = n' := Except.ok.inj ((grade_eq_ok_iff.2 hn).symm.trans (grade_eq_ok_iff.2 hp'))
  have hms' : ∀ x ∈ ms, x.isNaN = false := by
    intro x hx
    obtain ⟨q, hq, hqx⟩ := exists_mem_left hms x hx
    exact hnum q hq x hqx
  cases hjoin : Connective.or.join ms with
  | none =>
    obtain rfl := (Connective.join_eq_none_iff _ _).1 hjoin
    cases hn'
  | some w => exact le_of_greatest? hms' hjoin n hn'

/-- A rule that holds at least as far as another one contributes at least as much to the same
consequent. -/
theorem contributes_of_strength (hout : ValidSets outputs) (hconsequent : r'.consequent = r.consequent)
    (h : ∀ w, Strength lookup inputs args r w → ∃ w', Strength lookup inputs args r' w' ∧ w ≤ w') :
    ∀ i x, Contributes lookup inputs outputs args i r x →
      ∃ x', Contributes lookup inputs outputs args i r' x' ∧ x ≤ x' := by
  rintro i x ⟨w, s, n, hw, hs, hn, rfl⟩
  obtain ⟨w', hw', hle⟩ := h w hw
  have hnum := ((hs.valid hout).inUnit n (List.mem_of_getElem? hn)).isNaN
  exact ⟨least w' n, ⟨w', s, n, hw', hconsequent ▸ hs, hn, rfl⟩, least_le_least hle hnum⟩

/-! ## 2. The alternatives in place of the rule -/

/-- The alternatives fire iff the rule does. -/
theorem allFire_alternatives (hne : r.antecedents ≠ []) :
    AllFire lookup inputs outputs args [r] ↔
      AllFire lookup inputs outputs args r.alternatives := by
  constructor
  · intro h r' hr'
    obtain ⟨p, hp, rfl⟩ := List.mem_map.1 hr'
    obtain ⟨hholds, hnames⟩ := exists_fires_iff.1 (h r List.mem_cons_self)
    refine exists_fires_iff.2 ⟨fun q hq => ?_, hnames⟩
    obtain rfl := List.mem_singleton.1 hq
    exact hholds q hp
  · intro h r' hr'
    obtain rfl := List.mem_singleton.1 hr'
    have hfires := fun p (hp : p ∈ r'.antecedents) =>
      exists_fires_iff.1 (h _ (List.mem_map_of_mem hp))
    obtain ⟨p, hp⟩ := List.exists_mem_of_ne_nil _ hne
    exact exists_fires_iff.2 ⟨fun q hq => (hfires q hq).1 q List.mem_cons_self, (hfires p hp).2⟩

/-- The rule is covered by its alternatives: it holds as far as one of them. -/
theorem covered_alternatives (hlookup : lookup ≠ .interpolate) (hin : ValidSets inputs)
    (hout : ValidSets outputs) (hor : r.connective = .or) (hne : r.antecedents ≠ [])
    (hfire : AllFire lookup inputs outputs args [r]) :
    Covered lookup inputs outputs args [r] r.alternatives := by
  intro r₁ hr₁
  obtain rfl := List.mem_singleton.1 hr₁
  obtain ⟨w, hw⟩ := exists_strength_iff.2 (exists_fires_iff.1 (hfire r₁ hr₁)).1
  obtain ⟨p, hp, hholds⟩ := hw.attained hor hne
  refine ⟨_, List.mem_map_of_mem hp, rfl, contributes_of_strength hout rfl fun w' hw' => ?_⟩
  obtain rfl := hw.unique hw'
  exact ⟨w, strength_single_iff.2 hholds, le_refl (hw.inUnit hlookup hin).isNaN⟩

/-- The alternatives are covered by the rule: none of them holds further. -/
theorem alternatives_covered (hlookup : lookup ≠ .interpolate) (hin : ValidSets inputs)
    (hout : ValidSets outputs) (hor : r.connective = .or)
    (hfire : AllFire lookup inputs outputs args [r]) :
    Covered lookup inputs outputs args r.alternatives [r] := by
  intro r' hr'
  obtain ⟨p, hp, rfl⟩ := List.mem_map.1 hr'
  obtain ⟨w, hw⟩ := exists_strength_iff.2 (exists_fires_iff.1 (hfire r List.mem_cons_self)).1
  refine ⟨r, List.mem_cons_self, rfl, contributes_of_strength hout rfl fun n hn => ⟨w, hw, ?_⟩⟩
  exact hw.highest hor (fun _ _ _ h => (h.inUnit hlookup hin).isNaN) p hp n
    (strength_single_iff.1 hn)

/-- **A rule can be replaced by one rule for each of its alternatives.** -/
theorem Interchangeable.alternatives (hlookup : lookup ≠ .interpolate) (hin : ValidSets inputs)
    (hout : ValidSets outputs) (hor : r.connective = .or) (hne : r.antecedents ≠ []) :
    Interchangeable lookup inputs outputs args [r] r.alternatives where
  fire := allFire_alternatives hne
  right := covered_alternatives hlookup hin hout hor hne
  left := alternatives_covered hlookup hin hout hor

/-! ## 3. Evaluations -/

/-- **An `OR` rule means the same as its antecedents taken one rule each.** Where the rule stands
among others, the rules with one antecedent each can be put in its place: the one evaluation
succeeds iff the other does, they are about the same outputs, and the aggregated sets and the crisp
values are equal as doubles. The memberships are looked up exactly or at the nearest value. -/
theorem evaluate_alternatives (settings : Settings) (m : Defuzzifier)
    (inputs outputs : Registry Variable) (args : Arguments) (before after : List Rule) (r : Rule)
    (hlookup : settings.lookup = .exact ∨ settings.lookup = .nearest) (hin : ValidSets inputs)
    (hout : ValidSets outputs) (hor : r.connective = .or) (hne : r.antecedents ≠ []) :
    ((∃ result, evaluate settings m inputs outputs (before ++ r :: after) args = .ok result) ↔
      ∃ result, evaluate settings m inputs outputs (before ++ r.alternatives ++ after) args =
        .ok result) ∧
    ∀ result result',
      evaluate settings m inputs outputs (before ++ r :: after) args = .ok result →
      evaluate settings m inputs outputs (before ++ r.alternatives ++ after) args = .ok result' →
      result.names = result'.names ∧
      List.Forall₂ (fun e e' => e.1 = e'.1 ∧ e.2.aggregated.agrees e'.2.aggregated = true ∧
        Alike e.2.crisp e'.2.crisp) result.entries result'.entries := by
  have hnot : settings.lookup ≠ .interpolate := by
    rcases hlookup with h | h <;> rw [h] <;> decide
  have hsame : ∀ rs, Interchangeable settings.lookup inputs outputs args rs rs := fun _ =>
    Interchangeable.of_mem_iff hout fun _ => Iff.rfl
  have hreplaced := ((hsame before).append
    (Interchangeable.alternatives hnot hin hout hor hne)).append (hsame after)
  rw [List.append_assoc before [r] after] at hreplaced
  exact hreplaced.evaluate hout

/-- The rule that turns the fan on with the noise or the heat. -/
def eitherRule : Rule := .of .or [⟨"noise", "on"⟩, ⟨"heat", "on"⟩] ⟨"fan", "on"⟩

/-- The fan goes on with one rule for the noise and one for the heat. -/
theorem evaluate_alternatives_either :
    ValidSets (switches "noise" "heat" (by decide)) ∧ ValidSets (switch "fan") ∧
    eitherRule.connective = .or ∧ eitherRule.antecedents.length = 2 ∧
    ∃ result, evaluate {} .centroid (switches "noise" "heat" (by decide)) (switch "fan")
      ([fanRule] ++ eitherRule.alternatives ++ []) heatWithoutNoise = .ok result := by
  have hin := validSets_switches "noise" "heat" (by decide)
  have hout := validSets_switch "fan"
  refine ⟨hin, hout, rfl, rfl, ?_⟩
  exact (evaluate_alternatives {} .centroid (switches "noise" "heat" (by decide)) (switch "fan")
    heatWithoutNoise [fanRule] [] eitherRule (.inl rfl) hin hout rfl (by decide)).1.1
    ⟨⟨[("fan", ⟨⟨"fan", [⟨0, 0⟩, ⟨1, 1⟩]⟩, 1⟩)], by simp⟩, rfl⟩

end Evaluation

end FuzzyControl
