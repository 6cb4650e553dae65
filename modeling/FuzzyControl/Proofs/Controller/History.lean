import FuzzyControl.Proofs.Results
import FuzzyControl.Proofs.Rule.RoundTrip
import FuzzyControl.Controller.Run

/-!
# The history of a run

A step fails and changes nothing, or it does one of four things: it files a variable, takes one
out, takes a rule up, or replaces the settings. The history of a run is the list of what its steps
did. What holds of a controller after a run is shown by induction on that list.

* `Event`, `happens?`, `history`: what a step does, and what the steps of a run did;
* `Admits`, `apply`: which events can happen to a controller, and what they make of it;
* `Refuses`, `outcome`: which steps fail, which change nothing, and what the others do;
* `Evolves`: one controller comes from another by a list of events, each of which can happen;
  `evolves_run` and `Begins.evolves`: a run is such a list, and so is the making of a controller.
-/

namespace FuzzyControl.Controller

open Results

/-! ## 1. Events -/

/-- What a step does that succeeds. -/
inductive Event where
  | added (role : Role) (v : Variable)
  | removed (role : Role) (name : String)
  | ruled (r : Rule)
  | configured (settings : Settings)
  deriving DecidableEq

/-- What a step reads as, if it is one that takes a rule up. -/
def Step.reading? : Step → Option (Except Fault Rule)
  | .addSentence sentence => some (Rule.ofText sentence)
  | .addOutline o => some o.toRule
  | _ => none

/-- What happens at a step; nothing if it fails, nor if it takes out what is not there. -/
def happens? (c : Controller) (s : Step) : Option Event :=
  match (c.attempt s).1, s with
  | .error _, _ => none
  | .ok (), .add role v => some (.added role v)
  | .ok (), .remove role name =>
      if name ∈ (c.side role).names then some (.removed role name) else none
  | .ok (), .addSentence sentence => (Rule.ofText sentence).toOption.map .ruled
  | .ok (), .addOutline o => o.toRule.toOption.map .ruled
  | .ok (), .configure settings => some (.configured settings)

/-- What happens in a run, in order. -/
def history (c : Controller) : List Step → List Event
  | [] => []
  | s :: steps => (c.happens? s).toList ++ (c.step s).history steps

/-- The events that can happen to a controller: a new name is filed, one that is there is taken
out, and a rule is taken up that is well formed and passes the check. Settings are free. -/
def Admits (c : Controller) : Event → Prop
  | .added role v => v.name ∉ (c.side role).names
  | .removed role name => name ∈ (c.side role).names
  | .ruled r => r.WellFormed ∧ c.check r = .ok ()
  | .configured _ => True

/-- The controller after an event. -/
def apply (c : Controller) : Event → Controller
  | .added role v => c.withSide role ((c.side role).insert v.name v)
  | .removed role name => c.withSide role ((c.side role).erase name)
  | .ruled r => { c with rules := c.rules ++ [r] }
  | .configured settings => { c with settings }

/-! ## 2. What a step can do -/

/-- The steps that fail, and what is wrong with them: the name of a variable is taken, or a rule
cannot be read, or it does not pass the check. -/
inductive Refuses (c : Controller) : Step → Fault → Prop
  | duplicate {role : Role} {v : Variable} (h : v.name ∈ (c.side role).names) :
      Refuses c (.add role v) (.duplicateVariable role v.name)
  | unread {s : Step} {fault : Fault} (h : s.reading? = some (.error fault)) : Refuses c s fault
  | unchecked {s : Step} {r : Rule} {fault : Fault} (h : s.reading? = some (.ok r))
      (hcheck : c.check r = .error fault) : Refuses c s fault

section Steps

variable {c : Controller} {s : Step} {r : Rule} {fault : Fault}

/-- A step that reads as a rule takes that rule up, or fails like its check. -/
theorem attempt_of_reading (h : s.reading? = some (.ok r)) : c.attempt s =
    match c.check r with
    | .ok () => (.ok (), c.apply (.ruled r))
    | .error fault => (.error fault, c) := by
  cases s with
  | addSentence sentence =>
    have hr : Rule.ofText sentence = .ok r := Option.some.inj h
    show c.held (.addSentence sentence) = _
    rw [held_addSentence, hr]
    exact c.held_addRule r
  | addOutline o =>
    have hr : o.toRule = .ok r := Option.some.inj h
    show c.held (.addOutline o) = _
    rw [held_addOutline, hr]
    exact c.held_addRule r
  | _ => cases h

/-- **A step that is refused fails, and changes nothing.** -/
theorem Refuses.attempt_eq (h : c.Refuses s fault) : c.attempt s = (.error fault, c) := by
  cases h with
  | duplicate h => exact (c.held_addVariable _ _).trans (if_pos h)
  | unread h =>
    cases s with
    | addSentence sentence =>
      have hr : Rule.ofText sentence = .error fault := Option.some.inj h
      show c.held (.addSentence sentence) = _
      rw [held_addSentence, hr]
    | addOutline o =>
      have hr : o.toRule = .error fault := Option.some.inj h
      show c.held (.addOutline o) = _
      rw [held_addOutline, hr]
    | _ => cases h
  | unchecked h hcheck => rw [attempt_of_reading h, hcheck]

/-- Nothing happens at a step that is refused. -/
theorem Refuses.happens?_eq_none (h : c.Refuses s fault) : c.happens? s = none := by
  unfold happens?
  rw [h.attempt_eq]

theorem happens?_of_reading (h : s.reading? = some (.ok r))
    (hok : (c.attempt s).1 = .ok ()) : c.happens? s = some (.ruled r) := by
  unfold happens?
  rw [hok]
  cases s with
  | addSentence sentence =>
    have hr : Rule.ofText sentence = .ok r := Option.some.inj h
    simp only [hr]
    rfl
  | addOutline o =>
    have hr : o.toRule = .ok r := Option.some.inj h
    simp only [hr]
    rfl
  | _ => cases h

/-- What is read as a rule is well formed, whatever it is read from. -/
theorem wellFormed_of_reading (h : s.reading? = some (.ok r)) : r.WellFormed := by
  cases s with
  | addSentence sentence => exact Rule.wellFormed_of_ofText (Option.some.inj h)
  | addOutline o => exact Rule.wellFormed_of_toRule (Option.some.inj h)
  | _ => cases h

/-- What becomes of a step. -/
inductive Outcome (c : Controller) (s : Step) : Prop
  /-- It is refused. -/
  | refused (fault : Fault) (h : c.Refuses s fault)
  /-- It succeeds, and there is nothing to do. -/
  | idle (h : c.attempt s = (.ok (), c)) (hnone : c.happens? s = none)
  /-- It succeeds, and something happens that can happen. -/
  | event (e : Event) (hadmits : c.Admits e) (h : c.attempt s = (.ok (), c.apply e))
      (hsome : c.happens? s = some e)

theorem outcome_of_reading {reading : Except Fault Rule} (h : s.reading? = some reading) :
    c.Outcome s := by
  cases reading with
  | error fault => exact .refused fault (.unread h)
  | ok r =>
    cases hcheck : c.check r with
    | error fault => exact .refused fault (.unchecked h hcheck)
    | ok u =>
      have hattempt := attempt_of_reading (c := c) h
      rw [hcheck] at hattempt
      exact .event (.ruled r) ⟨wellFormed_of_reading h, hcheck⟩ hattempt
        (happens?_of_reading h (congrArg Prod.fst hattempt))

/-- **What a step can do at all.** -/
theorem outcome (c : Controller) (s : Step) : c.Outcome s := by
  cases s with
  | add role v =>
    by_cases hmem : v.name ∈ (c.side role).names
    · exact .refused _ (.duplicate hmem)
    · have hattempt : c.attempt (.add role v) = (.ok (), c.apply (.added role v)) :=
        (c.held_addVariable role v).trans (if_neg hmem)
      refine .event (.added role v) hmem hattempt ?_
      unfold happens?
      rw [hattempt]
  | remove role name =>
    have hhappens : c.happens? (.remove role name) =
        if name ∈ (c.side role).names then some (.removed role name) else none := rfl
    have hattempt : c.attempt (.remove role name) =
        (.ok (), c.withSide role ((c.side role).erase name)) := c.held_removeVariable role name
    by_cases hmem : name ∈ (c.side role).names
    · exact .event (.removed role name) hmem hattempt (hhappens.trans (if_pos hmem))
    · refine .idle ?_ (hhappens.trans (if_neg hmem))
      rw [hattempt, Registry.erase_of_not_mem hmem, withSide_side]
  | addSentence sentence => exact outcome_of_reading rfl
  | addOutline o => exact outcome_of_reading rfl
  | configure settings =>
    exact .event (.configured settings) trivial (c.held_configure settings) rfl

/-- The steps that fail are those that are refused. -/
theorem attempt_eq_error_iff : (c.attempt s).1 = .error fault ↔ c.Refuses s fault := by
  constructor
  · intro hfault
    cases c.outcome s with
    | refused fault' h =>
      rw [h.attempt_eq] at hfault
      cases hfault
      exact h
    | idle h _ =>
      rw [h] at hfault
      cases hfault
    | event e _ h _ =>
      rw [h] at hfault
      cases hfault
  · intro h
    rw [h.attempt_eq]

/-- Only what can happen does. -/
theorem admits_of_happens? {e : Event} (h : c.happens? s = some e) : c.Admits e := by
  cases c.outcome s with
  | refused fault hrefused =>
    rw [hrefused.happens?_eq_none] at h
    cases h
  | idle _ hnone =>
    rw [hnone] at h
    cases h
  | event e' hadmits _ hsome =>
    obtain rfl : e' = e := Option.some.inj (hsome.symm.trans h)
    exact hadmits

end Steps

/-! ## 3. From events to controllers -/

/-- One controller comes from another by events that can happen, one after the other. -/
inductive Evolves : Controller → List Event → Controller → Prop
  | refl (c : Controller) : Evolves c [] c
  | head {c c' : Controller} {e : Event} {es : List Event} (h : c.Admits e)
      (hes : Evolves (c.apply e) es c') : Evolves c (e :: es) c'

theorem Evolves.trans {c c' c'' : Controller} {es es' : List Event} (h : Evolves c es c')
    (h' : Evolves c' es' c'') : Evolves c (es ++ es') c'' := by
  induction h with
  | refl c => exact h'
  | head hadmits _ ih => exact .head hadmits (ih h')

/-- **A controller evolves in a run by what happens in it.** -/
theorem evolves_run (c : Controller) (steps : List Step) :
    Evolves c (c.history steps) (c.run steps) := by
  induction steps generalizing c with
  | nil => exact .refl c
  | cons s steps ih =>
    have hrun : c.run (s :: steps) = (c.step s).run steps := rfl
    have hstep : c.step s = (c.attempt s).2 := rfl
    rw [history, hrun, hstep]
    cases c.outcome s with
    | refused fault h =>
      rw [h.happens?_eq_none, h.attempt_eq]
      exact ih c
    | idle h hnone =>
      rw [hnone, h]
      exact ih c
    | event e hadmits h hsome =>
      rw [hsome, h]
      exact .head hadmits (ih (c.apply e))

theorem history_append (c : Controller) (before after : List Step) :
    c.history (before ++ after) = c.history before ++ (c.run before).history after := by
  induction before generalizing c with
  | nil => rfl
  | cons s before ih =>
    rw [List.cons_append, history, history, ih, List.append_assoc]
    rfl

/-- What is in the history happened at some step. -/
theorem mem_history_iff {c : Controller} {steps : List Step} {e : Event} :
    e ∈ c.history steps ↔
      ∃ before s after, steps = before ++ s :: after ∧ (c.run before).happens? s = some e := by
  induction steps generalizing c with
  | nil => simp [history]
  | cons s steps ih =>
    rw [history, List.mem_append, Option.mem_toList, ih]
    constructor
    · rintro (h | ⟨before, s', after, rfl, h⟩)
      · exact ⟨[], s, steps, rfl, h⟩
      · exact ⟨s :: before, s', after, rfl, h⟩
    · rintro ⟨before, s', after, hsteps, h⟩
      cases before with
      | nil =>
        obtain ⟨rfl, rfl⟩ := List.cons.inj hsteps
        exact .inl h
      | cons s₁ before =>
        obtain ⟨rfl, rfl⟩ := List.cons.inj hsteps
        exact .inr ⟨before, s', after, rfl, h⟩

/-- Variables that are filed one after the other. -/
theorem evolves_foldlM (role : Role) {vs : List Variable} {c c' : Controller}
    (h : vs.foldlM (fun c v => c.changed (.addVariable role v)) c = .ok c') :
    Evolves c (vs.map (.added role)) c' := by
  induction vs generalizing c with
  | nil =>
    cases h
    exact .refl _
  | cons v vs ih =>
    rw [List.foldlM_cons, bind_eq_ok_iff] at h
    obtain ⟨c₁, hc₁, h⟩ := h
    unfold changed at hc₁
    rw [held_addVariable] at hc₁
    by_cases hmem : v.name ∈ (c.side role).names
    · rw [if_pos hmem] at hc₁
      cases hc₁
    · rw [if_neg hmem] at hc₁
      obtain rfl := Except.ok.inj hc₁
      exact .head hmem (ih h)

/-- A controller as it begins: without variables, or with those that it is made of, which count as
added first. -/
inductive Begins : Controller → List Event → Prop
  | empty (name : String) : Begins (empty name) []
  | ofVariables {name : String} {inputs outputs : List Variable} {c : Controller}
      (h : ofVariables name inputs outputs = .ok c) :
      Begins c (inputs.map (.added .input) ++ outputs.map (.added .output))

/-- No rules are there from the beginning. -/
theorem Begins.not_mem_ruled {c : Controller} {es : List Event} (h : Begins c es) {r : Rule} :
    .ruled r ∉ es := by
  cases h <;> simp

theorem name_apply (c : Controller) (e : Event) : (c.apply e).name = c.name := by
  cases e with
  | added role v => exact c.name_withSide role _
  | removed role name => exact c.name_withSide role _
  | ruled r => rfl
  | configured settings => rfl

theorem Evolves.name_eq {c c' : Controller} {es : List Event} (h : Evolves c es c') :
    c'.name = c.name := by
  induction h with
  | refl c => rfl
  | head _ _ ih => exact ih.trans (name_apply _ _)

theorem Begins.evolves {c : Controller} {es : List Event} (h : Begins c es) :
    Evolves (Controller.empty c.name) es c := by
  cases h with
  | empty name => exact .refl _
  | @ofVariables name inputs outputs _ h =>
    obtain ⟨c₁, hinputs, houtputs⟩ := bind_eq_ok_iff.1 h
    have hevolves : Evolves (Controller.empty name) _ _ :=
      (evolves_foldlM .input hinputs).trans (evolves_foldlM .output houtputs)
    have hname : _ = name := hevolves.name_eq
    rwa [← hname] at hevolves

/-- **A controller that is reached evolves from one without variables.** -/
theorem Begins.evolves_run {c : Controller} {es : List Event} (h : Begins c es)
    (steps : List Step) :
    Evolves (Controller.empty c.name) (es ++ c.history steps) (c.run steps) :=
  h.evolves.trans (c.evolves_run steps)

end FuzzyControl.Controller
