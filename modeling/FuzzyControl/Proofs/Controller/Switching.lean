import FuzzyControl.Proofs.Evaluation.Reference
import FuzzyControl.Proofs.FuzzySet.Nearest
import FuzzyControl.Controller.Solve

/-!
# Another way to look up

Where one way to look up gives what another one gives, rules are as strong, fire into the same sets
and conclude the same. The nearest look-up does so for the exact one: a sample at a value is the
nearest one, and the only one as near. So a controller that is solved exactly has the same solution
when it takes the nearest samples.

* `Evaluation.Extends`: what holds with one way to look up holds as far with another;
  `Extends.evaluate`: then the rules conclude the same;
* `extends_nearest`: the nearest look-up extends the exact one;
* `Controller.nearest_extends_exact`: memberships, conclusions and crisp values.
-/

namespace FuzzyControl

namespace Evaluation

variable {lookup lookup' : Lookup} {inputs outputs : Registry Variable} {args : Arguments}

/-! ## 1. Evaluations -/

/-- What holds with one way to look up holds as far with the other. -/
def Extends (lookup lookup' : Lookup) (inputs : Registry Variable) (args : Arguments) : Prop :=
  ∀ p m, Holds lookup inputs args p m → Holds lookup' inputs args p m

theorem Extends.strength (h : Extends lookup lookup' inputs args) {r : Rule} {w : Float}
    (hw : Strength lookup inputs args r w) : Strength lookup' inputs args r w := by
  obtain ⟨ms, hms, rfl⟩ := hw
  exact ⟨ms, hms.imp h, rfl⟩

theorem Extends.fires (h : Extends lookup lookup' inputs args) {r : Rule} {t : FuzzySet}
    (ht : Fires lookup inputs outputs args r t) : Fires lookup' inputs outputs args r t := by
  obtain ⟨w, s, hw, hs, rfl⟩ := ht
  exact ⟨w, s, h.strength hw, hs, rfl⟩

/-- **What is concluded with one way to look up is concluded with the other.** -/
theorem Extends.evaluate {settings : Settings} {m : Defuzzifier} {rules : List Rule}
    {result : Conclusions} (h : Extends settings.lookup lookup' inputs args)
    (hresult : evaluate settings m inputs outputs rules args = .ok result) :
    evaluate { settings with lookup := lookup' } m inputs outputs rules args = .ok result := by
  obtain ⟨fired, hfired, hconclude⟩ := evaluate_eq_ok_iff.1 hresult
  refine evaluate_eq_ok_iff.2 ⟨fired, hfired.imp fun r f hrf => ?_, hconclude⟩
  obtain ⟨hsubject, hfires⟩ := hrf
  exact ⟨hsubject, h.fires hfires⟩

/-- **The nearest look-up extends the exact one** at finite arguments. -/
theorem extends_nearest (hsets : ∀ v ∈ inputs.values, ∀ s ∈ v.sets.values, s.Ascends)
    (hargs : ∀ name ∈ inputs.names, ∀ x, args.find? name = some x → x.isFinite = true) :
    Extends .exact .nearest inputs args := by
  intro p m hholds
  obtain ⟨s, x, hs, hx, hm⟩ := hholds
  obtain ⟨v, hv, hmem⟩ := hs.mem
  have hfinite := hargs p.subject hs.subject_mem x hx
  exact ⟨s, x, hs, hx, (hsets v hv s hmem).nearest_of_exact hfinite hm⟩

end Evaluation

/-! ## 2. Controllers -/

namespace Controller

open Evaluation Results

variable {c : Controller} {args : Arguments} {scheme : Scheme} {m : Defuzzifier} {lookup : Lookup}

theorem solveAll_of_extends {result : Conclusions}
    (h : Extends c.settings.lookup lookup c.inputs args)
    (hresult : c.solveAll scheme args m = .ok result) :
    (c.configure { c.settings with lookup }).solveAll scheme args m = .ok result := by
  obtain ⟨hobstacle, hevaluate⟩ := solveAll_eq_ok_iff.1 hresult
  exact solveAll_eq_ok_iff.2 ⟨hobstacle, h.evaluate hevaluate⟩

theorem solve_of_extends {x : Float} (h : Extends c.settings.lookup lookup c.inputs args)
    (hx : c.solve scheme args m = .ok x) :
    (c.configure { c.settings with lookup }).solve scheme args m = .ok x := by
  obtain ⟨result, hresult, -⟩ := bind_eq_ok_iff.1 hx
  rw [solve_eq_of_solveAll (solveAll_of_extends h hresult), ← solve_eq_of_solveAll hresult]
  exact hx

/-- **The nearest look-up extends the exact one.** A membership that is looked up exactly, at a finite
value, is also that of the nearest sample. So a controller that is solved with exact look-ups, for
finite arguments to its inputs, has the same conclusions and the same crisp value with nearest ones.
Of the sets of its inputs it is enough that their values ascend, as in any set that can be
obtained. -/
theorem nearest_extends_exact :
    (∀ s : FuzzySet, s.Valid → ∀ x m, x.isFinite = true → s.membershipAt x .exact = .ok m →
      s.membershipAt x .nearest = .ok m) ∧
    ∀ (c : Controller) (args : Arguments), c.settings.lookup = .exact →
      (∀ v ∈ c.inputs.values, ∀ s ∈ v.sets.values, s.Ascends) →
      (∀ name ∈ c.inputs.names, ∀ x, args.find? name = some x → x.isFinite = true) →
      ∀ (scheme : Scheme) (m : Defuzzifier),
        (∀ result, c.solveAll scheme args m = .ok result →
          (c.configure { c.settings with lookup := .nearest }).solveAll scheme args m =
            .ok result) ∧
        ∀ x, c.solve scheme args m = .ok x →
          (c.configure { c.settings with lookup := .nearest }).solve scheme args m = .ok x := by
  refine ⟨fun s hs x m hx hm => hs.ascends.nearest_of_exact hx hm, ?_⟩
  intro c args hlookup hsets hargs scheme m
  have hextends : Extends c.settings.lookup .nearest c.inputs args := by
    rw [hlookup]
    exact extends_nearest hsets hargs
  exact ⟨fun result => solveAll_of_extends hextends, fun x => solve_of_extends hextends⟩

/-- A fan that is driven by a heater. -/
def fanController : Controller :=
  { name := "room", inputs := switch "heat", outputs := switch "fan", rules := [fanRule]
    settings := {} }

/-- The sample at zero is nearer than the one at infinity. And the fan goes on with the heater, also
when the nearest samples are taken. -/
theorem nearest_extends_exact_fan :
    FuzzySet.Valid ⟨"Open", [⟨0, 0.5⟩, ⟨1 / 0, 1⟩]⟩ ∧
    FuzzySet.membershipAt ⟨"Open", [⟨0, 0.5⟩, ⟨1 / 0, 1⟩]⟩ (-0.0) .nearest = .ok 0.5 ∧
    fanController.solve .mamdani heatOn .centroid = .ok 1 ∧
    (fanController.configure { lookup := .nearest }).solve .mamdani heatOn .centroid = .ok 1 := by
  obtain ⟨hsets, hcontrollers⟩ := nearest_extends_exact
  have hvalid : FuzzySet.Valid ⟨"Open", [⟨0, 0.5⟩, ⟨1 / 0, 1⟩]⟩ := by decide
  have hascending : ∀ v ∈ fanController.inputs.values, ∀ s ∈ v.sets.values, s.Ascends :=
    fun v hv s hs => (validSets_switch "heat" v hv s hs).ascends
  have hargs : ∀ name ∈ fanController.inputs.names, ∀ x, heatOn.find? name = some x →
      x.isFinite = true := by
    intro name hname x hx
    obtain rfl : name = "heat" := List.mem_singleton.1 hname
    obtain rfl : (1 : Float) = x := Option.some.inj hx
    rfl
  have hsolve : fanController.solve .mamdani heatOn .centroid = .ok 1 := rfl
  obtain ⟨-, hcrisp⟩ := hcontrollers fanController heatOn rfl hascending hargs .mamdani .centroid
  exact ⟨hvalid, hsets _ hvalid (-0.0) 0.5 (by decide) rfl, hsolve, hcrisp 1 hsolve⟩

end Controller

end FuzzyControl
