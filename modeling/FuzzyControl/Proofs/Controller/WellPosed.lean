import FuzzyControl.Proofs.Controller.References
import FuzzyControl.Proofs.FuzzySet.Lookup

/-!
# Controllers that can always be solved

A controller from which no variable was ever taken out has all that its rules refer to. Then three
things can still be wrong: there is no rule, or an argument is missing or has no membership, or the
sets of an output are on different grids. Where none of them is, solving goes through.

* `WellPosed`: the conditions that exclude these three;
* `WellPosed.not_objection`, `WellPosed.not_disagreement`: no fault is left at the two late stages;
* `solvable`: a controller that is reached without taking anything out is solved.
-/

namespace FuzzyControl.Controller

open Evaluation Results

/-- There is a rule, the sets of each output are on one grid, and every input has a finite argument
which is in reach of its sets. The values of the sets ascend, as in any set that can be obtained. -/
structure WellPosed (c : Controller) (args : Arguments) : Prop where
  ruled : c.rules ≠ []
  ascending : ∀ v ∈ c.inputs.values, ∀ s ∈ v.sets.values, s.Ascends
  oneGrid : ∀ v ∈ c.outputs.values, ∀ s ∈ v.sets.values, ∀ t ∈ v.sets.values,
    s.sameGrid t = true
  arguments : ∀ v ∈ c.inputs.values, ∃ x, args.find? v.name = some x ∧ x.isFinite = true ∧
    ∀ s ∈ v.sets.values, s.InReach x c.settings.lookup

/-! ## 1. No fault at any stage -/

section Stages

variable {c : Controller} {args : Arguments} (h : c.WellPosed args)
include h

/-- Nothing is wrong with what means something. -/
theorem WellPosed.not_objection (hfiled : c.Filed) {ref : Role × Proposition}
    (href : ∃ t, Denotes (c.side ref.1) ref.2 t) (fault : Fault) :
    ¬ Objection c.settings.lookup c.inputs c.outputs args ref fault := by
  intro hobjection
  obtain ⟨v, hv, s, hs, x, hx, hoff, -⟩ := offGrid_of_objection hfiled href hobjection
  obtain ⟨y, hy, hfinite, hreach⟩ := h.arguments v hv
  obtain rfl : x = y := Option.some.inj (hx.symm.trans hy)
  obtain ⟨m, hm⟩ := (hreach s hs).exists_membershipAt? (h.ascending v hv s hs) hfinite
  rw [hm] at hoff
  cases hoff

/-- Rules about one output conclude about sets of one variable. -/
theorem WellPosed.not_disagreement (name : String) (fault : Fault) :
    ¬ Disagreement c.outputs c.rules name fault := by
  rintro ⟨r, rest, s, hrules, ⟨v, hv, hs⟩, hfirst⟩
  obtain ⟨r', hr', t, ⟨w, hw, ht⟩, hdiffers, -⟩ := hfirst.exists_mem
  have hsubject : ∀ q ∈ r :: rest, q.consequent.subject = name := by
    intro q hq
    rw [← hrules] at hq
    exact beq_iff_eq.1 (List.mem_filter.1 hq).2
  rw [hsubject r List.mem_cons_self] at hv
  rw [hsubject r' (List.mem_cons_of_mem _ hr')] at hw
  obtain rfl : v = w := Option.some.inj (hv.symm.trans hw)
  rw [h.oneGrid v (mem_values_of_find? hv) s (mem_values_of_find? hs) t (mem_values_of_find? ht)]
    at hdiffers
  cases hdiffers

/-- The rules are about some inputs and outputs. -/
theorem WellPosed.names_ne_nil (hfiled : c.Filed) (hsupported : c.Supported)
    (hwell : ∀ r ∈ c.rules, r.WellFormed) : c.inputs.names ≠ [] ∧ c.outputs.names ≠ [] := by
  have hsubject : ∀ r ∈ c.rules, ∀ ref ∈ r.references, (c.side ref.1).names ≠ [] := by
    intro r hr ref href
    obtain ⟨t, ht⟩ := hsupported r hr ref href
    exact List.ne_nil_of_mem ((names_iff_denotes (hfiled ref.1)).2 ht).subject_mem
  obtain ⟨r, hr⟩ := List.exists_mem_of_ne_nil _ h.ruled
  obtain ⟨p, hp⟩ := List.exists_mem_of_ne_nil _ (hwell r hr).antecedents
  refine ⟨hsubject r hr (.input, p) ?_, hsubject r hr (.output, r.consequent) ?_⟩
  · exact List.mem_append_left _ (List.mem_map_of_mem hp)
  · exact List.mem_append_right _ List.mem_cons_self

/-- **No fault is left at any stage.** -/
theorem WellPosed.not_faults (hfiled : c.Filed) (hsupported : c.Supported)
    (hwell : ∀ r ∈ c.rules, r.WellFormed) :
    ∀ stage ∈ Stage.all, ∀ fault, ¬ stage.Faults c args fault := by
  obtain ⟨hinputs, houtputs⟩ := h.names_ne_nil hfiled hsupported hwell
  intro stage _
  cases stage with
  | inputs => exact fun fault hfault => hinputs hfault.1
  | outputs => exact fun fault hfault => houtputs hfault.1
  | rules => exact fun fault hfault => h.ruled hfault.1
  | arguments =>
    refine forall_not_first_iff.2 fun name hname fault hfault => ?_
    have hin : c.inputs.FiledBy Variable.name := hfiled .input
    rw [hin.names_eq] at hname
    obtain ⟨v, hv, rfl⟩ := List.mem_map.1 hname
    obtain ⟨x, hx, -⟩ := h.arguments v hv
    rw [hx] at hfault
    cases hfault.1
  | references =>
    refine forall_not_first_iff.2 fun ref href => ?_
    obtain ⟨r, hr, href⟩ := List.mem_flatMap.1 href
    exact h.not_objection hfiled (hsupported r hr ref href)
  | grids => exact forall_not_first_iff.2 fun name _ => h.not_disagreement name

end Stages

/-! ## 2. Runs -/

theorem keepsReferences_of_not_removed {c₀ : Controller} {steps : List Step}
    (h : ∀ role name, .removed role name ∉ c₀.history steps) : c₀.KeepsReferences steps := by
  rintro before s after r rfl - ref -
  intro hremoved
  refine h ref.1 ref.2.subject ?_
  rw [history_append]
  exact List.mem_append_right _ hremoved

/-- **A controller that is well posed is solved**, with whatever defuzzifier, if no variable was
ever taken out. -/
theorem solvable (c₀ : Controller) (es : List Event) (hbegins : Begins c₀ es) (steps : List Step)
    (hkept : ∀ role name, .removed role name ∉ c₀.history steps) (args : Arguments)
    (hposed : (c₀.run steps).WellPosed args) (scheme : Scheme) (m : Defuzzifier) :
    (∃ result, (c₀.run steps).solveAll scheme args m = .ok result) ∧
      ∃ x, (c₀.run steps).solve scheme args m = .ok x := by
  have hsupported := (keepsReferences_of_not_removed hkept).supported hbegins
  have hwell : ∀ r ∈ (c₀.run steps).rules, r.WellFormed :=
    (hbegins.evolves_run steps).wellFormed (by simp [Controller.empty])
  obtain ⟨result, hresult⟩ : ∃ result, (c₀.run steps).solveAll scheme args m = .ok result :=
    solveAll_isOk_iff.2 (hposed.not_faults (hbegins.filed steps) hsupported hwell)
  obtain ⟨_, conclusion, -, -, hsolve⟩ := solve_of_solveAll hresult
  exact ⟨⟨result, hresult⟩, conclusion.crisp, hsolve⟩

/-- A heater and a fan, with memberships on the line between the samples. -/
def fanInterpolated : List Step := fanRuled ++ [.configure ⟨.interpolate, .zero⟩]

/-- The heater is on by half. -/
def heatHalf : Arguments := ⟨[("heat", 0.5)], by simp⟩

theorem eq_of_mem_onOff {name : String} {s : FuzzySet} (h : s ∈ (onOff name).sets.values) :
    s = ⟨"on", [⟨0, 0⟩, ⟨1, 1⟩]⟩ := by
  simpa [onOff, Registry.values] using h

theorem inputs_fan : ((Controller.empty "room").run fanInterpolated).inputs.values =
    [onOff "heat"] := by
  decide

theorem wellPosed_fan : ((Controller.empty "room").run fanInterpolated).WellPosed heatHalf where
  ruled := by decide
  ascending := by
    intro v hv s hs
    rw [inputs_fan, List.mem_singleton] at hv
    subst hv
    have hvalid : s.Valid := eq_of_mem_onOff hs ▸ by decide
    exact hvalid.ascends
  oneGrid := by
    have houtputs : ((Controller.empty "room").run fanInterpolated).outputs.values =
        [onOff "fan"] := by decide
    intro v hv s hs t ht
    rw [houtputs, List.mem_singleton] at hv
    subst hv
    rw [eq_of_mem_onOff hs, eq_of_mem_onOff ht]
    decide
  arguments := by
    have hsettings : ((Controller.empty "room").run fanInterpolated).settings.lookup =
        .interpolate := by decide
    intro v hv
    rw [inputs_fan, List.mem_singleton] at hv
    subst hv
    refine ⟨0.5, rfl, rfl, fun s hs => ?_⟩
    rw [hsettings, eq_of_mem_onOff hs]
    exact List.cons_ne_nil _ _

/-- The fan is driven by a heater that is on by half. -/
theorem solvable_fan : Begins (Controller.empty "room") [] ∧
    (∀ role name, .removed role name ∉ (Controller.empty "room").history fanInterpolated) ∧
    ((Controller.empty "room").run fanInterpolated).WellPosed heatHalf ∧
    ∃ x, ((Controller.empty "room").run fanInterpolated).solve .mamdani heatHalf .centroid =
      .ok x := by
  have hbegins := Begins.empty "room"
  have hhistory : (Controller.empty "room").history fanInterpolated =
      [.added .input (onOff "heat"), .added .output (onOff "fan"), .ruled fanRule,
        .configured ⟨.interpolate, .zero⟩] := by decide
  have hkept : ∀ role name,
      .removed role name ∉ (Controller.empty "room").history fanInterpolated := by
    rw [hhistory]
    simp
  exact ⟨hbegins, hkept, wellPosed_fan,
    (solvable _ _ hbegins fanInterpolated hkept heatHalf wellPosed_fan .mamdani .centroid).2⟩

end FuzzyControl.Controller
