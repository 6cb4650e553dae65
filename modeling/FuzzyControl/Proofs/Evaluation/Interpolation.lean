import FuzzyControl.Proofs.Evaluation.Validity
import FuzzyControl.Proofs.FuzzySet.Interpolation

/-!
# Rules whose antecedents are interpolated

An interpolated membership is in the unit interval where the line through the samples is steady. If it
is steady at every argument that a rule looks up, the strength of the rule is in the unit interval,
and what the rules conclude stays valid.

* `SteadyReferences`: the lines that a rule looks up are steady at their arguments;
* `interpolated_inUnit`: memberships, strengths and aggregated sets under interpolation.
-/

namespace FuzzyControl.Evaluation

open Double

variable {inputs : Registry Variable} {args : Arguments} {r : Rule}

/-- Each antecedent of a rule names a set whose line is steady at its argument. -/
def SteadyReferences (inputs : Registry Variable) (args : Arguments) (r : Rule) : Prop :=
  ∀ p ∈ r.antecedents, ∀ s x, Names inputs p s → args.find? p.subject = some x → s.SteadyAt x

theorem SteadyReferences.holdInUnit (h : SteadyReferences inputs args r)
    (hin : ValidSets inputs) : HoldInUnit .interpolate inputs args r := by
  rintro p hp m ⟨s, x, hs, hx, hm⟩
  exact (h p hp s x hs hx).inUnit (hs.valid hin) hm

/-- **Interpolated memberships are memberships where the lines between samples are steady.** So are
the strengths of rules then, and aggregated sets stay valid. A line is steady throughout if it is
steady at each of its samples, which does not depend on the arguments; and it is steady at any value
that is clear of the sample after it. -/
theorem interpolated_inUnit (settings : Settings) (m : Defuzzifier)
    (inputs outputs : Registry Variable) (rules : List Rule) (args : Arguments) (s : FuzzySet)
    (x : Float) (hlookup : settings.lookup = .interpolate) (hin : ValidSets inputs)
    (hout : ValidSets outputs) (hs : s.Valid) :
    (s.SteadyThroughout ∨ s.ClearAt x → s.SteadyAt x) ∧
    (s.SteadyAt x → ∀ n, s.membershipAt x settings.lookup = .ok n → InUnit n) ∧
    ((∀ r ∈ rules, SteadyReferences inputs args r) →
      (∀ r ∈ rules, ∀ w, Strength settings.lookup inputs args r w → InUnit w) ∧
      ∀ result, evaluate settings m inputs outputs rules args = .ok result →
        ∀ c ∈ result.values, c.aggregated.Valid) := by
  refine ⟨fun h => h.elim (fun h => h.steadyAt hs x) fun h => h.steadyAt hs, fun h n hn => ?_,
    fun hsteady => ?_⟩
  · rw [hlookup] at hn
    exact h.inUnit hs hn
  · have hholds : ∀ r ∈ rules, HoldInUnit settings.lookup inputs args r := by
      rw [hlookup]
      exact fun r hr => (hsteady r hr).holdInUnit hin
    exact ⟨fun r hr w hw => hw.inUnit_of_holds (hholds r hr),
      fun result hresult => valid_evaluate_of_holds hholds hout hresult⟩

/-- The set of a switch. -/
def onSet : FuzzySet := ⟨"on", [⟨0, 0⟩, ⟨1, 1⟩]⟩

/-- The heat is a quarter of the way up. -/
def heatQuarter : Arguments := ⟨[("heat", 0.25)], by simp⟩

/-- A switch is steady throughout, so what is concluded about the fan is valid. -/
theorem interpolated_inUnit_heatQuarter :
    onSet.Valid ∧ onSet.SteadyThroughout ∧
    (∃ n, onSet.membershipAt 0.25 .interpolate = .ok n ∧ InUnit n) ∧
    ∃ result, evaluate { lookup := .interpolate } .centroid (switch "heat") (switch "fan") [fanRule]
      heatQuarter = .ok result ∧ ∀ c ∈ result.values, c.aggregated.Valid := by
  have hvalid : onSet.Valid := by decide
  have hsteady : onSet.SteadyThroughout := by decide +kernel
  have hinterpolated := fun x => interpolated_inUnit { lookup := .interpolate } .centroid
    (switch "heat") (switch "fan") [fanRule] heatQuarter onSet x rfl (validSets_switch "heat")
    (validSets_switch "fan") hvalid
  have hreferences : ∀ r ∈ [fanRule], SteadyReferences (switch "heat") heatQuarter r := by
    intro r hr p hp s x hs hx
    obtain rfl := List.mem_singleton.1 hr
    obtain rfl := List.mem_singleton.1 hp
    obtain ⟨v, hv, hs⟩ := hs
    obtain rfl : v = onOff "heat" := (Option.some.inj hv).symm
    obtain rfl : s = onSet := (Option.some.inj hs).symm
    exact (hinterpolated x).1 (.inl hsteady)
  obtain ⟨hat, hmember, hrules⟩ := hinterpolated 0.25
  exact ⟨hvalid, hsteady, ⟨_, rfl, hmember (hat (.inl hsteady)) _ rfl⟩, _, rfl,
    (hrules hreferences).2 _ rfl⟩

end FuzzyControl.Evaluation
