import FuzzyControl.Controller.Basic

/-!
# Solving a controller

A controller is solved for arguments to its inputs. Before the rules are evaluated it is checked
that the controller has inputs, outputs and rules, and then that every input has an argument.

* `solveAll`: the conclusions about every output that some rule is about;
* `solve`: the crisp value of the first of them;
* `solveTagged`: the same, the kind of inference and the defuzzifier given by their tags.
-/

namespace FuzzyControl.Controller

/-- What keeps a controller from being solved for some arguments. -/
def obstacle? (c : Controller) (args : Arguments) : Option Fault :=
  if c.inputs.isEmpty then some (.incomplete .inputs)
  else if c.outputs.isEmpty then some (.incomplete .outputs)
  else if c.rules.isEmpty then some (.incomplete .rules)
  else (c.inputs.names.find? fun name => !args.contains name).map .missingArgument

/-- The conclusions about every output that some rule is about. -/
def solveAll (c : Controller) (scheme : Scheme) (args : Arguments) (m : Defuzzifier) :
    Except Fault Conclusions :=
  match c.obstacle? args with
  | some fault => .error fault
  | none =>
      match scheme with
      | .mamdani => evaluate c.settings m c.inputs c.outputs c.rules args

/-- A controller is solved iff nothing keeps it from that and its rules are evaluated. -/
theorem solveAll_eq_ok_iff {c : Controller} {scheme : Scheme} {args : Arguments} {m : Defuzzifier}
    {result : Conclusions} : c.solveAll scheme args m = .ok result ↔
      c.obstacle? args = none ∧
        evaluate c.settings m c.inputs c.outputs c.rules args = .ok result := by
  unfold solveAll
  cases c.obstacle? args with
  | some fault => simp
  | none => cases scheme; simp

/-- The crisp value of the first output, in order of declaration, that some rule is about. -/
def solve (c : Controller) (scheme : Scheme) (args : Arguments) (m : Defuzzifier) :
    Except Fault Float := do
  let conclusions ← c.solveAll scheme args m
  match conclusions.values.head? with
  | some c => return c.crisp
  | none => .error (.incomplete .rules)

theorem solve_eq_of_solveAll {c : Controller} {scheme : Scheme} {args : Arguments}
    {m : Defuzzifier} {result : Conclusions} (h : c.solveAll scheme args m = .ok result) :
    c.solve scheme args m = match result.values.head? with
      | some c => .ok c.crisp
      | none => .error (.incomplete .rules) := by
  unfold solve
  rw [h]
  rfl

/-- The same with tags; the tag of the inference is read first, and both before solving. -/
def solveTagged (c : Controller) (scheme : String) (args : Arguments) (m : String) :
    Except Fault Float := do
  let scheme ← Scheme.ofTag scheme
  let m ← Defuzzifier.ofTag m
  c.solve scheme args m

end FuzzyControl.Controller
