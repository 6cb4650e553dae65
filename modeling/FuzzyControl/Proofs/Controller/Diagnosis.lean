import FuzzyControl.Proofs.Evaluation.Faults
import FuzzyControl.Controller.Solve

/-!
# Why a controller cannot be solved

Solving goes through stages. What it fails with is the first fault of the first stage that has one,
and a controller without a fault at any stage is solved.

* `Stage`, `Stage.Faults`: what is looked at, in order, and what can be wrong with it;
* `solveAll_eq_error_iff`: the fault that is reported;
* `solve_of_solveAll`, `solve_eq_error_iff`: the crisp value adds no way to fail;
* `diagnosis`: all of it.
-/

namespace FuzzyControl.Controller

open Evaluation Results

/-! ## 1. Stages -/

/-- What is looked at when a controller is solved. -/
inductive Stage where
  /-- Whether there are inputs. -/
  | inputs
  /-- Whether there are outputs. -/
  | outputs
  /-- Whether there are rules. -/
  | rules
  /-- Whether every input has an argument. -/
  | arguments
  /-- Whether all that the rules refer to is there, and the arguments have memberships. -/
  | references
  /-- Whether the consequents about each output are on one grid. -/
  | grids
  deriving DecidableEq

/-- The stages before the rules are evaluated, in order. -/
def Stage.before : List Stage := [.inputs, .outputs, .rules, .arguments]

/-- All stages, in order. -/
def Stage.all : List Stage := Stage.before ++ [.references, .grids]

/-- What is wrong at a stage. -/
def Stage.Faults (c : Controller) (args : Arguments) : Stage → Fault → Prop
  | .inputs, fault => c.inputs.names = [] ∧ fault = .incomplete .inputs
  | .outputs, fault => c.outputs.names = [] ∧ fault = .incomplete .outputs
  | .rules, fault => c.rules = [] ∧ fault = .incomplete .rules
  | .arguments, fault =>
      First (fun name fault => args.find? name = none ∧ fault = .missingArgument name)
        c.inputs.names fault
  | .references, fault =>
      First (Objection c.settings.lookup c.inputs c.outputs args)
        (c.rules.flatMap Rule.references) fault
  | .grids, fault => First (Disagreement c.outputs c.rules) c.outputs.names fault

variable {c : Controller} {args : Arguments} {scheme : Scheme} {m : Defuzzifier} {fault : Fault}
  {result : Conclusions}

/-- An obstacle is the first fault of the stages before the evaluation. -/
theorem obstacle?_eq_some_iff :
    c.obstacle? args = some fault ↔ First (Stage.Faults c args) Stage.before fault := by
  have harguments : (c.inputs.names.find? fun name => !args.contains name).map Fault.missingArgument
      = some fault ↔ First (Stage.Faults c args) [.arguments] fault := by
    rw [find?_map_eq_some_iff, first_cons_iff, first_nil_iff, and_false, or_false]
    exact first_congr fun name _ fault => by simp [Registry.contains]
  refine guard_eq_some_iff (fun fault => ?_) <| guard_eq_some_iff (fun fault => ?_) <|
    guard_eq_some_iff (fun fault => ?_) harguments
  · rw [Registry.isEmpty_iff, Stage.Faults]
  · rw [Registry.isEmpty_iff, Stage.Faults]
  · rw [List.isEmpty_iff, Stage.Faults]

theorem not_faults_of_obstacle? (h : c.obstacle? args = none) (stage : Stage)
    (hstage : stage ∈ Stage.before) : ∀ fault, ¬ stage.Faults c args fault := by
  refine forall_not_first_iff.1 (fun fault hfault => ?_) stage hstage
  rw [obstacle?_eq_some_iff.2 hfault] at h
  cases h

theorem covers_of_obstacle? (h : c.obstacle? args = none) : Covers args c.inputs := by
  have hnone := forall_not_first_iff.1 (not_faults_of_obstacle? h .arguments (by decide))
  intro name hname
  rw [Registry.contains, Option.isSome_iff_ne_none]
  exact fun harg => hnone name hname _ ⟨harg, rfl⟩

/-! ## 2. All conclusions -/

/-- **What is reported is the first fault of the first stage that has one.** -/
theorem solveAll_eq_error_iff :
    c.solveAll scheme args m = .error fault ↔ First (Stage.Faults c args) Stage.all fault := by
  unfold solveAll Stage.all
  simp only [first_append_iff, ← obstacle?_eq_some_iff]
  cases h : c.obstacle? args with
  | some fault' => simp
  | none =>
    cases scheme
    simp only [first_cons_iff, first_nil_iff, and_false, or_false, reduceCtorEq, false_or,
      not_false_eq_true, implies_true, true_and]
    exact evaluate_eq_error_iff (covers_of_obstacle? h)

/-- A controller is solved iff there is no fault at any stage. -/
theorem solveAll_isOk_iff : (∃ result, c.solveAll scheme args m = .ok result) ↔
    ∀ stage ∈ Stage.all, ∀ fault, ¬ stage.Faults c args fault := by
  rw [isOk_iff_forall_ne_error, ← forall_not_first_iff]
  simp only [ne_eq, solveAll_eq_error_iff]

/-- Only a reference is reported as unresolved. -/
theorem objection_of_unresolved {subject set : String}
    (h : First (Stage.Faults c args) Stage.all (.unresolved subject set)) :
    ∃ ref ∈ c.rules.flatMap Rule.references,
      Objection c.settings.lookup c.inputs c.outputs args ref (.unresolved subject set) := by
  obtain ⟨stage, -, hstage⟩ := h.exists_mem
  cases stage with
  | inputs => exact absurd hstage.2 nofun
  | outputs => exact absurd hstage.2 nofun
  | rules => exact absurd hstage.2 nofun
  | arguments =>
    obtain ⟨name, -, -, hfault⟩ := hstage.exists_mem
    cases hfault
  | references => exact hstage.exists_mem
  | grids =>
    obtain ⟨name, -, hdisagree⟩ := hstage.exists_mem
    obtain ⟨left, right, hfault⟩ := hdisagree.fault_eq
    cases hfault

/-- The evaluation itself misses no argument. -/
theorem evaluate_ne_missingArgument (h : c.obstacle? args = none) (name : String) :
    evaluate c.settings m c.inputs c.outputs c.rules args ≠ .error (.missingArgument name) := by
  rw [Ne, evaluate_eq_error_iff (covers_of_obstacle? h)]
  rintro (hfirst | ⟨-, hfirst⟩)
  · obtain ⟨ref, -, hobjection⟩ := hfirst.exists_mem
    cases hobjection
  · obtain ⟨output, -, hdisagree⟩ := hfirst.exists_mem
    obtain ⟨left, right, hfault⟩ := hdisagree.fault_eq
    cases hfault

/-! ## 3. The crisp value -/

/-- The first output that some rule is about. -/
def firstOutput? (c : Controller) : Option String :=
  c.outputs.names.find? fun name => c.rules.any fun r => r.consequent.subject == name

/-- Where rules have fired, some rule is about an output. -/
theorem firstOutput?_isSome (h : c.solveAll scheme args m = .ok result) :
    ∃ name, c.firstOutput? = some name := by
  obtain ⟨hobstacle, hevaluate⟩ := solveAll_eq_ok_iff.1 h
  obtain ⟨fired, hfired, -⟩ := evaluate_eq_ok_iff.1 hevaluate
  have hrules : c.rules ≠ [] := fun hnil =>
    not_faults_of_obstacle? hobstacle .rules (by decide) _ ⟨hnil, rfl⟩
  obtain ⟨r, hr⟩ := List.exists_mem_of_ne_nil _ hrules
  obtain ⟨f, -, -, w, s, -, hs, -⟩ := exists_mem_right hfired r hr
  refine Option.isSome_iff_exists.1 (List.find?_isSome.2 ⟨_, hs.subject_mem, ?_⟩)
  exact List.any_eq_true.2 ⟨r, hr, beq_self_eq_true _⟩

/-- **The crisp value is that of the first output that some rule is about.** -/
theorem solve_of_solveAll (h : c.solveAll scheme args m = .ok result) :
    ∃ name conclusion, c.firstOutput? = some name ∧ result.find? name = some conclusion ∧
      c.solve scheme args m = .ok conclusion.crisp := by
  obtain ⟨name, hname⟩ := firstOutput?_isSome h
  have hhead : result.names.head? = some name := by
    rw [names_evaluate (solveAll_eq_ok_iff.1 h).2, List.head?_filter]
    exact hname
  obtain ⟨e, hentry, rfl⟩ : ∃ e, result.entries.head? = some e ∧ e.1 = name := by
    simpa [Registry.names] using hhead
  refine ⟨e.1, e.2, hname, ?_, ?_⟩
  · exact (result.find?_eq_some_iff _ _).2 (List.mem_of_mem_head? hentry)
  · have hvalue : result.values.head? = some e.2 := by simp [Registry.values, hentry]
    rw [solve_eq_of_solveAll h, hvalue]

theorem solve_eq_error_iff :
    c.solve scheme args m = .error fault ↔ c.solveAll scheme args m = .error fault := by
  cases h : c.solveAll scheme args m with
  | error fault' =>
    have hsolve : c.solve scheme args m = .error fault' := by
      unfold solve
      rw [h]
      rfl
    rw [hsolve]
    simp only [Except.error.injEq]
  | ok result =>
    obtain ⟨_, _, -, -, hsolve⟩ := solve_of_solveAll h
    rw [hsolve]
    exact ⟨nofun, nofun⟩

/-- Tags add two ways to fail. -/
theorem solveTagged_eq_error {tag tag' : String} (h : c.solveTagged tag args tag' = .error fault) :
    fault = .unknownScheme tag ∨ fault = .unknownDefuzzifier tag' ∨
      ∃ scheme m, c.solve scheme args m = .error fault := by
  unfold solveTagged at h
  rcases bind_eq_error_iff.1 h with hscheme | ⟨scheme, -, h⟩
  · unfold Scheme.ofTag at hscheme
    split at hscheme
    · cases hscheme
    · exact .inl (Except.error.inj hscheme).symm
  · rcases bind_eq_error_iff.1 h with hm | ⟨m, -, h⟩
    · unfold Defuzzifier.ofTag at hm
      split at hm
      · cases hm
      · exact .inr (.inl (Except.error.inj hm).symm)
    · exact .inr (.inr ⟨scheme, m, h⟩)

/-- **The fault of a controller that cannot be solved.** It is the first fault of the first stage
that has one; without a fault the controller is solved. The evaluation reports no missing argument.
The crisp value fails exactly when the conclusions do, and in the same way; else it is that of the
first output that some rule is about. -/
theorem diagnosis (c : Controller) (scheme : Scheme) (args : Arguments) (m : Defuzzifier) :
    (∀ fault, c.solveAll scheme args m = .error fault ↔
      First (Stage.Faults c args) Stage.all fault) ∧
    ((∃ result, c.solveAll scheme args m = .ok result) ↔
      ∀ stage ∈ Stage.all, ∀ fault, ¬ stage.Faults c args fault) ∧
    (c.obstacle? args = none → ∀ name,
      evaluate c.settings m c.inputs c.outputs c.rules args ≠ .error (.missingArgument name)) ∧
    (∀ fault, c.solve scheme args m = .error fault ↔ c.solveAll scheme args m = .error fault) ∧
    ∀ result, c.solveAll scheme args m = .ok result → ∃ name conclusion,
      c.firstOutput? = some name ∧ result.find? name = some conclusion ∧
        c.solve scheme args m = .ok conclusion.crisp :=
  ⟨fun _ => solveAll_eq_error_iff, solveAll_isOk_iff, evaluate_ne_missingArgument,
    fun _ => solve_eq_error_iff, fun _ => solve_of_solveAll⟩

end FuzzyControl.Controller
