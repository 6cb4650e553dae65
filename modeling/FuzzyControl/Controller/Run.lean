import FuzzyControl.Controller.Basic

/-!
# Runs of a controller

A controller is built by steps, each of which succeeds or fails. A run is a list of steps, taken
one after the other whatever becomes of each.

* `Step.change`: the change that a step makes;
* `attempt`: one step, what it comes to and what it leaves;
* `run`: a list of steps; `run_append` takes one run after the other.
-/

namespace FuzzyControl.Controller

/-- A step in building a controller. -/
inductive Step where
  | add (role : Role) (v : Variable)
  | remove (role : Role) (name : String)
  | addSentence (sentence : String)
  | addOutline (o : Outline)
  | configure (settings : Settings)

/-- The change that a step makes. -/
def Step.change : Step → Change
  | .add role v => .addVariable role v
  | .remove role name => .removeVariable role name
  | .addSentence sentence => .addSentence sentence
  | .addOutline o => .addOutline o
  | .configure settings => .configure settings

/-- What a step comes to, and the controller after it. -/
def attempt (c : Controller) (s : Step) : Except Fault Unit × Controller := c.held s.change

/-- The controller after a step, whether it succeeds or fails. -/
def step (c : Controller) (s : Step) : Controller := (c.attempt s).2

/-- The controller after a run. -/
def run (c : Controller) (steps : List Step) : Controller := steps.foldl step c

theorem run_append (c : Controller) (before after : List Step) :
    c.run (before ++ after) = (c.run before).run after := by
  simp [run]

end FuzzyControl.Controller
