import FuzzyControl.Proofs.Evaluation.Validity
import FuzzyControl.Proofs.Json.Reading
import FuzzyControl.Controller.Solve

/-!
# Every set that can be obtained is valid

A set is made of samples or points or a function, read from JSON, changed in place, or comes out of
the algebra or of an evaluation. Only the ways in from outside check the samples. The others build
the set as it comes, and keep it valid because their operands are.

* `Obtainable`: a set from any finite combination of these ways;
* `Obtainable.valid`: it is valid, by induction on the way it was obtained;
* `obtainable_wellSampled`: what that means, and what a rejected change in place leaves.
-/

namespace FuzzyControl.FuzzySet

open Evaluation

/-! ## 1. The ways to obtain a set -/

/-- A set that some finite combination of the operations on sets, of reading and of evaluations
gives. -/
inductive Obtainable : FuzzySet → Prop where
  | empty (name : String) : Obtainable (empty name)
  | ofSamples {name : String} {samples : List Sample} {s : FuzzySet}
      (h : ofSamples name samples = .ok s) : Obtainable s
  | ofPoints {name : String} {points : List Sample} {s : FuzzySet}
      (h : ofPoints name points = .ok s) : Obtainable s
  | ofFunction {name : String} {grid : List Float} {f : Float → Float} {s : FuzzySet}
      (h : ofFunction name grid f = .ok s) : Obtainable s
  /-- The set after a change in place, whether the samples are accepted or not. -/
  | assign {s : FuzzySet} (hs : Obtainable s) (samples : List Sample) :
      Obtainable ((assign samples).run.run s).2
  | ofJson {v : Json} {s : FuzzySet} (h : FuzzySet.ofJson v = .ok s) : Obtainable s
  | ofText {text : String} {s : FuzzySet} (h : Json.readText FuzzySet.ofJson text = .ok s) :
      Obtainable s
  /-- A set of a variable that is read. -/
  | ofVariable {v : Json} {x : Variable} {s : FuzzySet} (h : Variable.ofJson v = .ok x)
      (hs : s ∈ x.sets.values) : Obtainable s
  | ofVariableText {text : String} {x : Variable} {s : FuzzySet}
      (h : Json.readText Variable.ofJson text = .ok x) (hs : s ∈ x.sets.values) : Obtainable s
  | complement {s : FuzzySet} (hs : Obtainable s) : Obtainable s.complement
  | union {s t u : FuzzySet} (hs : Obtainable s) (ht : Obtainable t) (h : s.union t = .ok u) :
      Obtainable u
  | intersection {s t u : FuzzySet} (hs : Obtainable s) (ht : Obtainable t)
      (h : s.intersection t = .ok u) : Obtainable u
  | unionAll {sets : List FuzzySet} {u : FuzzySet} (hsets : ∀ s ∈ sets, Obtainable s)
      (h : unionAll sets = .ok (some u)) : Obtainable u
  /-- What rules conclude about an output. -/
  | evaluate {settings : Settings} {m : Defuzzifier} {inputs outputs : Registry Variable}
      {rules : List Rule} {args : Arguments} {result : Conclusions} {c : Conclusion}
      (hin : ∀ v ∈ inputs.values, ∀ s ∈ v.sets.values, Obtainable s)
      (hout : ∀ v ∈ outputs.values, ∀ s ∈ v.sets.values, Obtainable s)
      (hlookup : settings.lookup = .exact ∨ settings.lookup = .nearest)
      (h : evaluate settings m inputs outputs rules args = .ok result) (hc : c ∈ result.values) :
      Obtainable c.aggregated
  /-- What a controller concludes about an output. -/
  | solveAll {k : Controller} {scheme : Scheme} {args : Arguments} {m : Defuzzifier}
      {result : Conclusions} {c : Conclusion}
      (hin : ∀ v ∈ k.inputs.values, ∀ s ∈ v.sets.values, Obtainable s)
      (hout : ∀ v ∈ k.outputs.values, ∀ s ∈ v.sets.values, Obtainable s)
      (hlookup : k.settings.lookup = .exact ∨ k.settings.lookup = .nearest)
      (h : k.solveAll scheme args m = .ok result) (hc : c ∈ result.values) :
      Obtainable c.aggregated

/-! ## 2. Each way gives a valid set -/

theorem Valid.assign {s : FuzzySet} (hs : s.Valid) (samples : List Sample) :
    Valid ((FuzzySet.assign samples).run.run s).2 := by
  cases hflaw : flaw? samples with
  | some flaw =>
    rw [assign_of_flaw hflaw]
    exact hs
  | none =>
    have hvalid := (flaw?_eq_none_iff samples).1 hflaw
    rw [assign_of_valid hvalid]
    exact hvalid

theorem ne_interpolate {lookup : Lookup} (h : lookup = .exact ∨ lookup = .nearest) :
    lookup ≠ .interpolate := by
  rcases h with rfl | rfl <;> decide

/-- **Every set that can be obtained is valid.** -/
theorem Obtainable.valid {s : FuzzySet} (h : Obtainable s) : s.Valid := by
  induction h with
  | empty name => exact valid_empty name
  | ofSamples h => exact valid_of_resample h
  | ofPoints h => exact valid_of_resample h
  | ofFunction h => exact valid_of_resample h
  | assign _ samples ih => exact ih.assign samples
  | ofJson h => exact valid_of_ofJson h
  | ofText h =>
    obtain ⟨v, hv⟩ := Json.exists_of_readText h
    exact valid_of_ofJson hv
  | ofVariable h hs => exact Variable.valid_of_ofJson h _ hs
  | ofVariableText h hs =>
    obtain ⟨v, hv⟩ := Json.exists_of_readText h
    exact Variable.valid_of_ofJson hv _ hs
  | complement _ ih => exact ih.complement
  | union _ _ h ihs iht => exact ihs.union iht h
  | intersection _ _ h ihs iht => exact ihs.intersection iht h
  | unionAll _ h ih => exact Valid.unionAll ih h
  | evaluate _ _ hlookup h hc ihin ihout =>
    exact valid_evaluate (ne_interpolate hlookup) ihin ihout h _ hc
  | solveAll _ _ hlookup h hc ihin ihout =>
    exact valid_evaluate (ne_interpolate hlookup) ihin ihout (Controller.solveAll_eq_ok_iff.1 h).2 _ hc

/-! ## 3. The invariant -/

/-- **The invariant of fuzzy sets.** A set that can be obtained is well sampled, which is the same
as being accepted, and given back, when it is made of its own samples. Samples that are rejected
leave a set as it was. -/
theorem obtainable_wellSampled (s : FuzzySet) (h : Obtainable s) :
    s.WellSampled ∧ FuzzySet.ofSamples s.name s.samples = .ok s ∧
      (∀ t : FuzzySet, t.WellSampled ↔ FuzzySet.ofSamples t.name t.samples = .ok t) ∧
      ∀ samples fault t, (FuzzySet.assign samples).run.run s = (.error fault, t) → t = s := by
  refine ⟨(valid_iff s).1 h.valid, (ofSamples_samples_iff s).2 h.valid, fun t => ?_, ?_⟩
  · rw [← valid_iff, ofSamples_samples_iff]
  · intro samples fault t hassign
    cases hflaw : flaw? samples with
    | some flaw =>
      rw [assign_of_flaw hflaw] at hassign
      exact (Prod.ext_iff.1 hassign).2.symm
    | none =>
      rw [assign_of_valid ((flaw?_eq_none_iff samples).1 hflaw)] at hassign
      cases hassign

/-- The complement of a set of two samples. -/
theorem obtainable_wellSampled_complement :
    Obtainable (complement ⟨"off", [⟨0, 0.25⟩, ⟨1, 0⟩]⟩) ∧
      WellSampled (complement ⟨"off", [⟨0, 0.25⟩, ⟨1, 0⟩]⟩) := by
  have h : Obtainable (complement ⟨"off", [⟨0, 0.25⟩, ⟨1, 0⟩]⟩) :=
    .complement (.ofSamples ((ofSamples_eq_ok_iff _ _ _).2 ⟨by decide, rfl⟩))
  exact ⟨h, (obtainable_wellSampled _ h).1⟩

end FuzzyControl.FuzzySet
