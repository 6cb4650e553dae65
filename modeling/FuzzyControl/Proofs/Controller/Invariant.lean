import FuzzyControl.Proofs.Evaluation.Reference
import FuzzyControl.Proofs.Controller.History

/-!
# What holds of every controller that is reached

* `Filed`, `Evolves.filed`: every variable is filed under its own name;
* `survivors`, `Evolves.values_eq`: the variables of a side are those that were added and not taken
  out since, in the order in which they were added;
* `Evolves.rules_eq`, `Evolves.wellFormed`: the rules are those that were taken up, in order, and
  they are well formed;
* `run_invariant`: all of it, for a run from a controller as it begins.
-/

namespace FuzzyControl.Controller

/-! ## 1. The variables of a side -/

theorem side_apply (c : Controller) (e : Event) (role : Role) :
    (c.apply e).side role = match e with
      | .added role' v => if role' = role then (c.side role).insert v.name v else c.side role
      | .removed role' name => if role' = role then (c.side role).erase name else c.side role
      | .ruled _ => c.side role
      | .configured _ => c.side role := by
  cases e with
  | added role' v =>
    show (c.withSide role' _).side role = _
    rw [side_withSide]
    by_cases h : role' = role
    · subst h
      rfl
    · simp only [if_neg h]
  | removed role' name =>
    show (c.withSide role' _).side role = _
    rw [side_withSide]
    by_cases h : role' = role
    · subst h
      rfl
    · simp only [if_neg h]
  | ruled r => cases role <;> rfl
  | configured settings => cases role <;> rfl

/-- Every variable is filed under its own name. -/
def Filed (c : Controller) : Prop := ∀ role, (c.side role).FiledBy Variable.name

theorem filed_empty (name : String) : (Controller.empty name).Filed := by
  intro role
  cases role <;> exact Registry.filedBy_empty _

theorem Filed.apply {c : Controller} (h : c.Filed) {e : Event} (hadmits : c.Admits e) :
    (c.apply e).Filed := by
  intro role
  rw [side_apply]
  cases e with
  | added role' v =>
    by_cases hrole : role' = role
    · subst hrole
      simp only [if_true, Registry.insert_of_not_mem v hadmits]
      exact (h role').push v hadmits
    · simp only [if_neg hrole]
      exact h role
  | removed role' name =>
    by_cases hrole : role' = role
    · simp only [if_pos hrole]
      exact (h role).erase name
    · simp only [if_neg hrole]
      exact h role
  | ruled r => exact h role
  | configured settings => exact h role

theorem Evolves.filed {c c' : Controller} {es : List Event} (h : Evolves c es c')
    (hc : c.Filed) : c'.Filed := by
  induction h with
  | refl c => exact hc
  | head hadmits _ ih => exact ih (hc.apply hadmits)

/-- The variables of a side that are added and not taken out later, in order of addition. -/
def survivors (role : Role) : List Event → List Variable
  | [] => []
  | .added role' v :: es =>
      if role' = role ∧ .removed role v.name ∉ es then v :: survivors role es
      else survivors role es
  | _ :: es => survivors role es

/-- **The variables of a side are those that were there and have not been taken out, and after them
the survivors.** -/
theorem Evolves.values_eq {c c' : Controller} {es : List Event} (h : Evolves c es c')
    (hc : c.Filed) (role : Role) : (c'.side role).values =
      ((c.side role).values.filter fun v => .removed role v.name ∉ es) ++ survivors role es := by
  induction h with
  | refl c => simp [survivors]
  | @head c c' e es hadmits _ ih =>
    rw [ih (hc.apply hadmits), side_apply]
    cases e with
    | added role' v =>
      by_cases hrole : role' = role
      · subst hrole
        have hnew : v.name ∉ (c.side role').names := hadmits
        simp only [if_true, Registry.insert_of_not_mem v hnew, Registry.values_push]
        by_cases hlater : .removed role' v.name ∈ es
        · simp [survivors, hlater]
        · simp [survivors, hlater]
      · simp [survivors, hrole]
    | removed role' name =>
      by_cases hrole : role' = role
      · subst hrole
        simp only [survivors, if_true, (hc role').values_erase, List.filter_filter]
        congr 1
        refine List.filter_congr fun v _ => ?_
        rw [Bool.eq_iff_iff]
        simp [and_comm]
      · simp [survivors, hrole, Ne.symm hrole]
    | ruled r => simp [survivors]
    | configured settings => simp [survivors]

/-! ## 2. The rules -/

/-- The rule that an event takes up. -/
def Event.rule? : Event → Option Rule
  | .ruled r => some r
  | _ => none

theorem Event.rule?_eq_some_iff {e : Event} {r : Rule} : e.rule? = some r ↔ e = .ruled r := by
  cases e <;> simp [Event.rule?]

theorem rules_apply (c : Controller) (e : Event) :
    (c.apply e).rules = c.rules ++ e.rule?.toList := by
  cases e with
  | added role v => simp [apply, Event.rule?]
  | removed role name => simp [apply, Event.rule?]
  | ruled r => rfl
  | configured settings => simp [apply, Event.rule?]

/-- **No rule is dropped, and the rules that are taken up come last, in order.** -/
theorem Evolves.rules_eq {c c' : Controller} {es : List Event} (h : Evolves c es c') :
    c'.rules = c.rules ++ es.filterMap Event.rule? := by
  induction h with
  | refl c => simp
  | @head c c' e es _ _ ih =>
    rw [ih, rules_apply, List.append_assoc]
    cases hrule : e.rule? <;> simp [hrule]

theorem Evolves.wellFormed {c c' : Controller} {es : List Event} (h : Evolves c es c')
    (hc : ∀ r ∈ c.rules, r.WellFormed) : ∀ r ∈ c'.rules, r.WellFormed := by
  induction h with
  | refl c => exact hc
  | @head c c' e es hadmits _ ih =>
    refine ih fun r hr => ?_
    rw [rules_apply] at hr
    rcases List.mem_append.1 hr with hr | hr
    · exact hc r hr
    · cases e with
      | ruled r' =>
        obtain rfl : r = r' := by simpa [Event.rule?] using hr
        exact hadmits.1
      | _ => simp [Event.rule?] at hr

/-! ## 3. Runs -/

/-- **What holds of every controller that is reached.** The variables of each side, and the sets of
each variable, are filed under distinct names, which are their own. The variables are the survivors
of all that were added, in their order, and the rules are those that were taken up, in theirs. Every
rule is well formed. A step fails iff it is refused, and then it changes nothing. -/
theorem run_invariant (c₀ : Controller) (es : List Event) (hbegins : Begins c₀ es)
    (steps : List Step) :
    (∀ role, ((c₀.run steps).side role).names.Nodup ∧
      ((c₀.run steps).side role).FiledBy Variable.name ∧
      ∀ v ∈ ((c₀.run steps).side role).values,
        v.sets.names.Nodup ∧ v.sets.FiledBy FuzzySet.name) ∧
    (∀ role, ((c₀.run steps).side role).values =
      survivors role (es ++ c₀.history steps)) ∧
    (c₀.run steps).rules = (es ++ c₀.history steps).filterMap Event.rule? ∧
    (∀ r ∈ (c₀.run steps).rules, r.WellFormed) ∧
    ∀ s fault, (((c₀.run steps).attempt s).1 = .error fault ↔ (c₀.run steps).Refuses s fault) ∧
      ((c₀.run steps).Refuses s fault → ((c₀.run steps).attempt s).2 = c₀.run steps) := by
  have h := hbegins.evolves_run steps
  refine ⟨fun role => ⟨Registry.nodup _, h.filed (filed_empty _) role, fun v _ => ?_⟩,
    fun role => ?_, h.rules_eq, h.wellFormed (by simp [Controller.empty]), fun s fault => ?_⟩
  · exact ⟨v.sets.nodup, v.filed⟩
  · rw [h.values_eq (filed_empty _) role]
    cases role <;> rfl
  · exact ⟨attempt_eq_error_iff, fun hs => congrArg Prod.snd hs.attempt_eq⟩

/-- A heater and a lamp, the heater replaced. -/
def replaced : List Step :=
  [.add .input (Evaluation.onOff "heat"), .add .input (Evaluation.onOff "light"),
    .remove .input "heat", .add .input (Evaluation.onOff "heat")]

/-- What is taken out and added again comes last. -/
theorem run_invariant_replaced : Begins (Controller.empty "room") [] ∧
    ((Controller.empty "room").run replaced).inputs.values =
      [Evaluation.onOff "light", Evaluation.onOff "heat"] := by
  have hbegins := Begins.empty "room"
  have hvalues := (run_invariant _ _ hbegins replaced).2.1 .input
  exact ⟨hbegins, hvalues.trans (by decide)⟩

end FuzzyControl.Controller
