import FuzzyControl.Proofs.Controller.Diagnosis
import FuzzyControl.Proofs.Controller.Invariant

/-!
# What rules refer to

A rule is taken up only if all that it names is there. The sets that it names stay what they were,
whatever is added later, until a variable that it names is taken out.

* `Denotes`: the set that a proposition means; `Supports`: all that a rule names is there;
* `check_eq_ok_iff`, `check_eq_unknownAntecedent_iff`, `check_eq_unknownConsequent_iff`: when a rule
  is taken up, and what is wrong where it is not;
* `Denotes.evolves`: what is meant stays the same;
* `referential_integrity`: all of it, for runs.
-/

namespace FuzzyControl.Controller

open Evaluation Results

/-! ## 1. What a proposition means -/

/-- The set that a proposition means on a side: one of its name, of a variable of its subject. -/
def Denotes (side : Registry Variable) (p : Proposition) (t : FuzzySet) : Prop :=
  ∃ v ∈ side.values, v.name = p.subject ∧ t ∈ v.sets.values ∧ t.name = p.set

/-- Where variables are filed under their own names, looking up finds what is meant. -/
theorem names_iff_denotes {side : Registry Variable} (h : side.FiledBy Variable.name)
    {p : Proposition} {t : FuzzySet} : Names side p t ↔ Denotes side p t := by
  unfold Names Denotes
  simp only [h.find?_eq_some_iff, (Variable.filed _).find?_eq_some_iff, and_assoc]

theorem Denotes.unique {side : Registry Variable} (h : side.FiledBy Variable.name)
    {p : Proposition} {t u : FuzzySet} (ht : Denotes side p t) (hu : Denotes side p u) : t = u :=
  ((names_iff_denotes h).2 ht).unique ((names_iff_denotes h).2 hu)

theorem declares_iff {side : Registry Variable} {p : Proposition} :
    declares side p = true ↔ ∃ t, Names side p t := by
  unfold declares Names
  cases side.find? p.subject with
  | none => simp
  | some v => simp [Registry.contains, Option.isSome_iff_exists]

variable {c c' : Controller} {es : List Event}

/-- **What is meant stays the same** until the variable is taken out. -/
theorem Denotes.evolves (h : Evolves c es c') (hc : c.Filed) {role : Role} {p : Proposition}
    {t : FuzzySet} (ht : Denotes (c.side role) p t) (hkept : .removed role p.subject ∉ es) :
    Denotes (c'.side role) p t := by
  obtain ⟨v, hv, hname, hset⟩ := ht
  refine ⟨v, ?_, hname, hset⟩
  rw [h.values_eq hc role]
  refine List.mem_append_left _ (List.mem_filter.2 ⟨hv, ?_⟩)
  simpa [hname] using hkept

/-! ## 2. Taking rules up -/

/-- All that a rule names is there. -/
structure Supports (c : Controller) (r : Rule) : Prop where
  antecedents : ∀ p ∈ r.antecedents, ∃ t, Denotes c.inputs p t
  consequent : ∃ t, Denotes c.outputs r.consequent t

theorem Supports.references {r : Rule} (h : c.Supports r) :
    ∀ ref ∈ r.references, ∃ t, Denotes (c.side ref.1) ref.2 t := by
  intro ref href
  rcases List.mem_append.1 href with href | href
  · obtain ⟨p, hp, rfl⟩ := List.mem_map.1 href
    exact h.antecedents p hp
  · obtain rfl := List.mem_singleton.1 href
    exact h.consequent

section Check

variable {r : Rule} (hc : c.Filed)
include hc

open Classical in
/-- The check in terms of what the propositions of the rule mean. -/
theorem check_eq : c.check r =
    if ∀ p ∈ r.antecedents, ∃ t, Denotes c.inputs p t then
      if ∃ t, Denotes c.outputs r.consequent t then .ok ()
      else .error (.unknownConsequent r.consequent.subject r.consequent.set)
    else .error .unknownAntecedent := by
  have hin : c.inputs.FiledBy Variable.name := hc .input
  have hout : c.outputs.FiledBy Variable.name := hc .output
  unfold check
  simp only [← names_iff_denotes hin, ← names_iff_denotes hout, ← declares_iff, List.all_eq_true,
    Bool.not_eq_true', Bool.eq_false_iff, Ne, ite_not]

/-- **A rule passes the check iff all that it names is there.** -/
theorem check_eq_ok_iff : c.check r = .ok () ↔ c.Supports r := by
  rw [check_eq hc]
  split_ifs with hante hcons
  · exact ⟨fun _ => ⟨hante, hcons⟩, fun _ => rfl⟩
  · exact ⟨nofun, fun h => absurd h.consequent hcons⟩
  · exact ⟨nofun, fun h => absurd h.antecedents hante⟩

/-- An antecedent that means nothing is told first, whatever else is wrong. -/
theorem check_eq_unknownAntecedent_iff : c.check r = .error .unknownAntecedent ↔
    ∃ p ∈ r.antecedents, ∀ t, ¬ Denotes c.inputs p t := by
  have hnot : (∃ p ∈ r.antecedents, ∀ t, ¬ Denotes c.inputs p t) ↔
      ¬ ∀ p ∈ r.antecedents, ∃ t, Denotes c.inputs p t := by
    simp only [not_forall, not_exists, exists_prop]
  rw [check_eq hc, hnot]
  split_ifs with hante hcons
  · exact iff_of_false nofun (not_not.2 hante)
  · exact iff_of_false nofun (not_not.2 hante)
  · exact iff_of_true rfl hante

/-- A consequent that means nothing is told only if all antecedents mean something. -/
theorem check_eq_unknownConsequent_iff {subject set : String} :
    c.check r = .error (.unknownConsequent subject set) ↔
      (∀ p ∈ r.antecedents, ∃ t, Denotes c.inputs p t) ∧
        (¬ ∃ t, Denotes c.outputs r.consequent t) ∧ r.consequent = ⟨subject, set⟩ := by
  rw [check_eq hc]
  split_ifs with hante hcons
  · exact ⟨nofun, fun h => absurd hcons h.2.1⟩
  · constructor
    · intro h
      cases h
      exact ⟨hante, hcons, rfl⟩
    · rintro ⟨-, -, hr⟩
      rw [hr]
  · exact ⟨nofun, fun h => absurd h.1 hante⟩

end Check

theorem attempt_fst_of_reading {s : Step} {r : Rule} (h : s.reading? = some (.ok r)) :
    (c.attempt s).1 = c.check r := by
  rw [attempt_of_reading h]
  cases c.check r <;> rfl

/-! ## 3. Runs -/

variable {c₀ : Controller} {steps before after : List Step} {s : Step} {r : Rule}

theorem Begins.filed (h : Begins c₀ es) (steps : List Step) : (c₀.run steps).Filed :=
  (h.evolves_run steps).filed (filed_empty _)

/-- Every rule was taken up at some step. -/
theorem exists_step_of_mem_rules (h : Begins c₀ es) (hr : r ∈ (c₀.run steps).rules) :
    ∃ before s after, steps = before ++ s :: after ∧
      (c₀.run before).happens? s = some (.ruled r) := by
  rw [(h.evolves_run steps).rules_eq] at hr
  obtain ⟨e, he, hrule⟩ := List.mem_filterMap.1 hr
  obtain rfl : e = .ruled r := Event.rule?_eq_some_iff.1 hrule
  rcases List.mem_append.1 he with he | he
  · exact absurd he h.not_mem_ruled
  · exact mem_history_iff.1 he

/-- **What a rule refers to stays what it was when the rule was taken up**, until a variable that it
names is taken out. -/
theorem references_kept (h : Begins c₀ es) (hhappens : (c₀.run before).happens? s = some (.ruled r))
    {ref : Role × Proposition} (href : ref ∈ r.references)
    (hkept : .removed ref.1 ref.2.subject ∉ (c₀.run before).history (s :: after)) :
    (∃ t, Denotes ((c₀.run before).side ref.1) ref.2 t) ∧
      ∀ t, Denotes ((c₀.run before).side ref.1) ref.2 t ↔
        Denotes ((c₀.run (before ++ s :: after)).side ref.1) ref.2 t := by
  have hfiled := h.filed before
  have hsupports : (c₀.run before).Supports r :=
    (check_eq_ok_iff hfiled).1 (admits_of_happens? hhappens).2
  obtain ⟨t, ht⟩ := hsupports.references ref href
  have hnow : Denotes ((c₀.run (before ++ s :: after)).side ref.1) ref.2 t := by
    rw [run_append]
    exact ht.evolves ((c₀.run before).evolves_run (s :: after)) hfiled hkept
  refine ⟨⟨t, ht⟩, fun u => ⟨fun hu => ?_, fun hu => ?_⟩⟩
  · rwa [← ht.unique (hfiled ref.1) hu]
  · rwa [← hnow.unique (h.filed _ ref.1) hu]

/-- No variable that a rule names is taken out after the rule was taken up. -/
def KeepsReferences (c₀ : Controller) (steps : List Step) : Prop :=
  ∀ before s after r, steps = before ++ s :: after →
    (c₀.run before).happens? s = some (.ruled r) →
      ∀ ref ∈ r.references, .removed ref.1 ref.2.subject ∉ (c₀.run before).history (s :: after)

/-- All that the rules refer to is there. -/
def Supported (c : Controller) : Prop :=
  ∀ r ∈ c.rules, ∀ ref ∈ r.references, ∃ t, Denotes (c.side ref.1) ref.2 t

theorem KeepsReferences.supported (hkeeps : c₀.KeepsReferences steps) (h : Begins c₀ es) :
    (c₀.run steps).Supported := by
  intro r hr ref href
  obtain ⟨before, s, after, rfl, hhappens⟩ := exists_step_of_mem_rules h hr
  obtain ⟨⟨t, ht⟩, hsame⟩ :=
    references_kept h hhappens href (hkeeps before s after r rfl hhappens ref href)
  exact ⟨t, (hsame t).1 ht⟩

/-- Where a reference means something, the only objection is that an argument has no membership. -/
theorem offGrid_of_objection (hc : c.Filed) {args : Arguments} {ref : Role × Proposition}
    {fault : Fault} (href : ∃ t, Denotes (c.side ref.1) ref.2 t)
    (h : Objection c.settings.lookup c.inputs c.outputs args ref fault) :
    ∃ v ∈ c.inputs.values, ∃ s ∈ v.sets.values, ∃ x, args.find? v.name = some x ∧
      s.membershipAt? x c.settings.lookup = none ∧ fault = .offGrid s.name x := by
  obtain ⟨t, ht⟩ := href
  cases h with
  | unknownInput hnone => exact absurd ((names_iff_denotes (hc .input)).2 ht) (hnone t)
  | unknownOutput hnone => exact absurd ((names_iff_denotes (hc .output)).2 ht) (hnone t)
  | @offGrid p s x hs hx hoff =>
    obtain ⟨v, hv, hname, hset, -⟩ := (names_iff_denotes (hc .input)).1 hs
    exact ⟨v, hv, s, hset, x, hname ▸ hx, hoff, rfl⟩

theorem Supported.solveAll_ne_unresolved (h : c.Supported) (hc : c.Filed) (scheme : Scheme)
    (args : Arguments) (m : Defuzzifier) (subject set : String) :
    c.solveAll scheme args m ≠ .error (.unresolved subject set) := by
  intro hunresolved
  obtain ⟨ref, href, hobjection⟩ := objection_of_unresolved (solveAll_eq_error_iff.1 hunresolved)
  obtain ⟨r, hr, href⟩ := List.mem_flatMap.1 href
  obtain ⟨_, -, _, -, _, -, -, hfault⟩ := offGrid_of_objection hc (h r hr ref href) hobjection
  cases hfault

/-- **Referential integrity.** A rule is taken up iff it can be read and all that it names is there.
Where it is not, an antecedent that means nothing is told before a consequent. What the rules refer
to is what it was when they were taken up, until a variable that they name is taken out. Unless that
happens, solving never comes upon a reference that means nothing. -/
theorem referential_integrity (c₀ : Controller) (es : List Event) (hbegins : Begins c₀ es)
    (steps : List Step) :
    (∀ s reading, s.reading? = some reading →
      (((c₀.run steps).attempt s).1 = .ok () ↔
        ∃ r, reading = .ok r ∧ (c₀.run steps).Supports r)) ∧
    (∀ s r, s.reading? = some (.ok r) →
      (((c₀.run steps).attempt s).1 = .error .unknownAntecedent ↔
        ∃ p ∈ r.antecedents, ∀ t, ¬ Denotes (c₀.run steps).inputs p t) ∧
      ∀ subject set, ((c₀.run steps).attempt s).1 = .error (.unknownConsequent subject set) ↔
        (∀ p ∈ r.antecedents, ∃ t, Denotes (c₀.run steps).inputs p t) ∧
          (¬ ∃ t, Denotes (c₀.run steps).outputs r.consequent t) ∧
            r.consequent = ⟨subject, set⟩) ∧
    (∀ r ∈ (c₀.run steps).rules, ∃ before s after, steps = before ++ s :: after ∧
      (c₀.run before).happens? s = some (.ruled r)) ∧
    (∀ before s after r, steps = before ++ s :: after →
      (c₀.run before).happens? s = some (.ruled r) → ∀ ref ∈ r.references,
        .removed ref.1 ref.2.subject ∉ (c₀.run before).history (s :: after) →
          (∃ t, Denotes ((c₀.run before).side ref.1) ref.2 t) ∧
            ∀ t, Denotes ((c₀.run before).side ref.1) ref.2 t ↔
              Denotes ((c₀.run steps).side ref.1) ref.2 t) ∧
    (c₀.KeepsReferences steps → ∀ args subject set,
      (∀ scheme m, (c₀.run steps).solveAll scheme args m ≠ .error (.unresolved subject set)) ∧
      (∀ scheme m, (c₀.run steps).solve scheme args m ≠ .error (.unresolved subject set)) ∧
      ∀ scheme m, (c₀.run steps).solveTagged scheme args m ≠ .error (.unresolved subject set)) := by
  have hfiled := hbegins.filed steps
  refine ⟨fun s reading hreading => ?_, fun s r hreading => ?_,
    fun r hr => exists_step_of_mem_rules hbegins hr, ?_, ?_⟩
  · cases reading with
    | error fault =>
      rw [Refuses.attempt_eq (.unread hreading)]
      exact ⟨nofun, fun ⟨_, h, _⟩ => nomatch h⟩
    | ok r =>
      rw [attempt_fst_of_reading hreading, check_eq_ok_iff hfiled]
      exact ⟨fun h => ⟨r, rfl, h⟩, fun ⟨_, hr, h⟩ => Except.ok.inj hr ▸ h⟩
  · rw [attempt_fst_of_reading hreading]
    exact ⟨check_eq_unknownAntecedent_iff hfiled,
      fun _ _ => check_eq_unknownConsequent_iff hfiled⟩
  · rintro before s after r rfl hhappens ref href hkept
    exact references_kept hbegins hhappens href hkept
  · intro hkeeps args subject set
    have hall := fun scheme m =>
      (hkeeps.supported hbegins).solveAll_ne_unresolved hfiled scheme args m subject set
    have hsolve : ∀ scheme m,
        (c₀.run steps).solve scheme args m ≠ .error (.unresolved subject set) :=
      fun scheme m h => hall scheme m (solve_eq_error_iff.1 h)
    refine ⟨hall, hsolve, fun scheme m h => ?_⟩
    rcases solveTagged_eq_error h with h | h | ⟨scheme', m', h⟩
    · cases h
    · cases h
    · exact hsolve scheme' m' h

/-- A heater, a fan, and the rule between them. -/
def fanRuled : List Step :=
  [.add .input (onOff "heat"), .add .output (onOff "fan"),
    .addSentence "IF heat IS on THEN fan IS on"]

/-- The heater that the rule names is the one that was there, although a lamp has come since. -/
theorem referential_integrity_fan : Begins (Controller.empty "room") [] ∧
    ((Controller.empty "room").run (fanRuled.take 2)).happens? fanRuled[2] =
      some (.ruled fanRule) ∧
    .removed .input "heat" ∉ ((Controller.empty "room").run (fanRuled.take 2)).history
      [fanRuled[2], .add .input (onOff "light")] ∧
    Denotes ((Controller.empty "room").run (fanRuled ++ [.add .input (onOff "light")])).inputs
      ⟨"heat", "on"⟩ ⟨"on", [⟨0, 0⟩, ⟨1, 1⟩]⟩ := by
  have hbegins := Begins.empty "room"
  have hhappens : ((Controller.empty "room").run (fanRuled.take 2)).happens? fanRuled[2] =
      some (.ruled fanRule) := by decide
  have hkept : .removed .input "heat" ∉ ((Controller.empty "room").run
      (fanRuled.take 2)).history [fanRuled[2], .add .input (onOff "light")] := by decide
  obtain ⟨-, hsame⟩ := (referential_integrity _ _ hbegins
    (fanRuled ++ [.add .input (onOff "light")])).2.2.2.1 (fanRuled.take 2) fanRuled[2]
      [.add .input (onOff "light")] fanRule rfl hhappens (.input, ⟨"heat", "on"⟩) (by decide) hkept
  exact ⟨hbegins, hhappens, hkept, (hsame _).1 ⟨onOff "heat", by decide, rfl, by decide, rfl⟩⟩

end FuzzyControl.Controller
