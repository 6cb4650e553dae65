import FuzzyControl.Evaluation
import FuzzyControl.Rule.Outline

/-!
# Fuzzy controllers

A fuzzy controller has input variables, output variables and rules from the ones to the others. A
rule is taken up only if every set that it names exists at that time. Taking a variable out leaves
the rules that name it in place.

* `Change`: a change to a controller that is held, which can fail: a variable is filed or taken
  out, a rule is taken up, from a sentence or from an outline, or the settings are replaced;
* `check`: what a rule has to pass;
* `addInput`, `addOutput`, `removeInput`, `removeOutput`, `addSentence`, `addOutline`, `configure`:
  the controller that a change makes of one that is not held.
-/

namespace FuzzyControl

/-- Variables, and rules relating them. -/
structure Controller where
  name : String
  inputs : Registry Variable
  outputs : Registry Variable
  rules : List Rule
  settings : Settings
  deriving DecidableEq

namespace Controller

/-- The controller of a name without variables or rules. -/
def empty (name : String) : Controller := ⟨name, .empty, .empty, [], {}⟩

/-! ## 1. The two sides -/

/-- The variables on one side. -/
def side (c : Controller) : Role → Registry Variable
  | .input => c.inputs
  | .output => c.outputs

/-- The controller with other variables on one side. -/
def withSide (c : Controller) (role : Role) (vs : Registry Variable) : Controller :=
  match role with
  | .input => { c with inputs := vs }
  | .output => { c with outputs := vs }

theorem side_withSide (c : Controller) (role role' : Role) (vs : Registry Variable) :
    (c.withSide role vs).side role' = if role = role' then vs else c.side role' := by
  cases role <;> cases role' <;> rfl

@[simp] theorem name_withSide (c : Controller) (role : Role) (vs : Registry Variable) :
    (c.withSide role vs).name = c.name := by
  cases role <;> rfl

@[simp] theorem rules_withSide (c : Controller) (role : Role) (vs : Registry Variable) :
    (c.withSide role vs).rules = c.rules := by
  cases role <;> rfl

@[simp] theorem withSide_side (c : Controller) (role : Role) :
    c.withSide role (c.side role) = c := by
  cases role <;> rfl

/-! ## 2. What a rule has to pass -/

/-- Whether a proposition names a variable and one of its sets. -/
def declares (side : Registry Variable) (p : Proposition) : Bool :=
  match side.find? p.subject with
  | some v => v.sets.contains p.set
  | none => false

/-- All that a rule names has to exist. The antecedents are looked at before the consequent. -/
def check (c : Controller) (r : Rule) : Except Fault Unit :=
  if !r.antecedents.all (declares c.inputs) then .error .unknownAntecedent
  else if !declares c.outputs r.consequent then
    .error (.unknownConsequent r.consequent.subject r.consequent.set)
  else .ok ()

/-! ## 3. Changes -/

/-- A change to a controller that is held. What a change has done when it fails is not undone. -/
abbrev Change := ExceptT Fault (StateM Controller) Unit

namespace Change

/-- Files a variable under its own name, last in order, unless the name is taken. -/
def addVariable (role : Role) (v : Variable) : Change := do
  let vs := (← get).side role
  if vs.contains v.name then throw (.duplicateVariable role v.name)
  modify fun c => c.withSide role (vs.insert v.name v)

/-- Takes the variable of a name out, if there is one. -/
def removeVariable (role : Role) (name : String) : Change :=
  modify fun c => c.withSide role ((c.side role).erase name)

/-- Takes a rule up, last in order, if all that it names exists. -/
def addRule (r : Rule) : Change := do
  MonadExcept.ofExcept ((← get).check r)
  modify fun c => { c with rules := c.rules ++ [r] }

/-- Takes the rule of a sentence up. -/
def addSentence (sentence : String) : Change := do
  addRule (← MonadExcept.ofExcept (Rule.ofText sentence))

/-- Takes the rule of an outline up. -/
def addOutline (o : Outline) : Change := do
  addRule (← MonadExcept.ofExcept o.toRule)

/-- Replaces the settings. -/
def configure (settings : Settings) : Change := modify fun c => { c with settings }

end Change

/-- What a change to a controller comes to, and the controller that is held after it. -/
def held (c : Controller) (change : Change) : Except Fault Unit × Controller := change.run.run c

/-- The controller that a change makes, or the fault of one that fails. -/
def changed (c : Controller) (change : Change) : Except Fault Controller :=
  match c.held change with
  | (.ok (), c') => .ok c'
  | (.error fault, _) => .error fault

section Held

variable (c : Controller)

/-- A variable is filed last, or nothing changes. -/
theorem held_addVariable (role : Role) (v : Variable) : c.held (.addVariable role v) =
    if v.name ∈ (c.side role).names then (.error (.duplicateVariable role v.name), c)
    else (.ok (), c.withSide role ((c.side role).insert v.name v)) := by
  have hheld : c.held (.addVariable role v) =
      if (c.side role).contains v.name = true then (.error (.duplicateVariable role v.name), c)
      else (.ok (), c.withSide role ((c.side role).insert v.name v)) := by
    unfold held Change.addVariable
    show (ite _ _ _ : Change).run.run c = _
    split <;> rfl
  rw [hheld]
  simp only [Registry.contains_iff]

theorem held_removeVariable (role : Role) (name : String) : c.held (.removeVariable role name) =
    (.ok (), c.withSide role ((c.side role).erase name)) := rfl

/-- A rule is taken up last, or nothing changes. -/
theorem held_addRule (r : Rule) : c.held (.addRule r) =
    match c.check r with
    | .ok () => (.ok (), { c with rules := c.rules ++ [r] })
    | .error fault => (.error fault, c) := by
  have hheld : c.held (.addRule r) =
      (MonadExcept.ofExcept (c.check r) >>= fun _ =>
        modify fun c => { c with rules := c.rules ++ [r] } : Change).run.run c := rfl
  rw [hheld]
  cases c.check r <;> rfl

theorem held_addSentence (sentence : String) : c.held (.addSentence sentence) =
    match Rule.ofText sentence with
    | .ok r => c.held (.addRule r)
    | .error fault => (.error fault, c) := by
  unfold Change.addSentence
  cases Rule.ofText sentence <;> rfl

theorem held_addOutline (o : Outline) : c.held (.addOutline o) =
    match o.toRule with
    | .ok r => c.held (.addRule r)
    | .error fault => (.error fault, c) := by
  unfold Change.addOutline
  cases o.toRule <;> rfl

theorem held_configure (settings : Settings) :
    c.held (.configure settings) = (.ok (), { c with settings }) := rfl

end Held

/-! ## 4. Controllers made of others -/

/-- The controller with one more input. -/
def addInput (c : Controller) (v : Variable) : Except Fault Controller :=
  c.changed (.addVariable .input v)

/-- The controller with one more output. -/
def addOutput (c : Controller) (v : Variable) : Except Fault Controller :=
  c.changed (.addVariable .output v)

/-- The controller without the input of a name, if it has one. -/
def removeInput (c : Controller) (name : String) : Controller :=
  (c.held (.removeVariable .input name)).2

/-- The controller without the output of a name, if it has one. -/
def removeOutput (c : Controller) (name : String) : Controller :=
  (c.held (.removeVariable .output name)).2

/-- The controller of given inputs and outputs. -/
def ofVariables (name : String) (inputs outputs : List Variable) : Except Fault Controller := do
  let c ← inputs.foldlM addInput (empty name)
  outputs.foldlM addOutput c

/-- The controller with the rule of a sentence. -/
def addSentence (c : Controller) (sentence : String) : Except Fault Controller :=
  c.changed (.addSentence sentence)

/-- The controller with the rule of an outline. -/
def addOutline (c : Controller) (o : Outline) : Except Fault Controller :=
  c.changed (.addOutline o)

/-- The controller with other settings. -/
def configure (c : Controller) (settings : Settings) : Controller :=
  (c.held (.configure settings)).2

end Controller

end FuzzyControl
