import FuzzyControl.Proofs.Evaluation.Reference
import FuzzyControl.Proofs.FuzzySet.Lookup

/-!
# What the evaluation of rules fails with

The rules are looked at in order, within a rule the antecedents and then the consequent. Only when
all of them have fired are the conclusions drawn, output by output. The evaluation fails with the
first fault that is met on this way.

* `Rule.references`: what a rule refers to, in the order of looking it up;
* `Objection`: what is wrong with a reference; `Disagreement`: with the rules about an output;
* `evaluate_eq_error_iff`: the first of these is what the evaluation fails with.
-/

namespace FuzzyControl

/-- What a rule refers to: its antecedents among the inputs, and last its consequent among the
outputs. -/
def Rule.references (r : Rule) : List (Role × Proposition) :=
  r.antecedents.map (fun p => (.input, p)) ++ [(.output, r.consequent)]

namespace Evaluation

open Results

variable {lookup : Lookup} {inputs outputs : Registry Variable} {args : Arguments} {fault : Fault}

/-! ## 1. References -/

/-- What is wrong with a reference: there is no such set, or the argument has no membership in it.
An input that has no argument is not looked for. -/
inductive Objection (lookup : Lookup) (inputs outputs : Registry Variable) (args : Arguments) :
    Role × Proposition → Fault → Prop
  | unknownInput {p : Proposition} (h : ∀ s, ¬ Names inputs p s) :
      Objection lookup inputs outputs args (.input, p) (.unresolved p.subject p.set)
  | offGrid {p : Proposition} {s : FuzzySet} {x : Float} (hs : Names inputs p s)
      (hx : args.find? p.subject = some x) (h : s.membershipAt? x lookup = none) :
      Objection lookup inputs outputs args (.input, p) (.offGrid s.name x)
  | unknownOutput {p : Proposition} (h : ∀ s, ¬ Names outputs p s) :
      Objection lookup inputs outputs args (.output, p) (.unresolved p.subject p.set)

theorem resolve_eq_error_iff {side : Registry Variable} {p : Proposition} :
    resolve side p = .error fault ↔
      (∀ s, ¬ Names side p s) ∧ fault = .unresolved p.subject p.set := by
  simp only [← resolve_eq_ok_iff]
  unfold resolve
  cases (side.find? p.subject).bind fun v => v.sets.find? p.set <;> simp [eq_comm]

/-- Every input has an argument. -/
def Covers (args : Arguments) (inputs : Registry Variable) : Prop :=
  ∀ name ∈ inputs.names, args.contains name = true

theorem grade_eq_error_iff (hargs : Covers args inputs) {p : Proposition} :
    grade lookup inputs args p = .error fault ↔
      Objection lookup inputs outputs args (.input, p) fault := by
  unfold grade
  simp only [bind_eq_error_iff, resolve_eq_error_iff, resolve_eq_ok_iff]
  constructor
  · rintro (⟨hnone, rfl⟩ | ⟨s, hs, h⟩)
    · exact .unknownInput hnone
    · obtain ⟨x, hx⟩ := Option.isSome_iff_exists.1 (hargs _ hs.subject_mem)
      rw [hx] at h
      obtain ⟨hoff, rfl⟩ := FuzzySet.membershipAt_eq_error_iff.1 h
      exact .offGrid hs hx hoff
  · intro h
    cases h with
    | unknownInput hnone => exact .inl ⟨hnone, rfl⟩
    | @offGrid _ s x hs hx hoff =>
      refine .inr ⟨s, hs, ?_⟩
      rw [hx]
      exact FuzzySet.membershipAt_eq_error_iff.2 ⟨hoff, rfl⟩

theorem strength_eq_error_iff (hargs : Covers args inputs) {r : Rule} :
    strength lookup inputs args r = .error fault ↔
      First (fun p => Objection lookup inputs outputs args (.input, p)) r.antecedents fault := by
  unfold strength
  rw [bind_pure_eq_error_iff, mapM_eq_error_iff]
  exact first_congr fun p _ fault => grade_eq_error_iff hargs

/-- A rule fails with the first objection to what it refers to. -/
theorem fire_eq_error_iff (hargs : Covers args inputs) {r : Rule} :
    fire lookup inputs outputs args r = .error fault ↔
      First (Objection lookup inputs outputs args) r.references fault := by
  have hconsequent : Objection lookup inputs outputs args (.output, r.consequent) fault ↔
      resolve outputs r.consequent = .error fault := by
    rw [resolve_eq_error_iff]
    exact ⟨fun h => by cases h with | unknownOutput h => exact ⟨h, rfl⟩,
      fun ⟨h, hfault⟩ => hfault ▸ .unknownOutput h⟩
  have hantecedents : ∀ fault, First (Objection lookup inputs outputs args)
      (r.antecedents.map (fun p => (.input, p))) fault ↔
        strength lookup inputs args r = .error fault :=
    fun fault => first_map_iff.trans (strength_eq_error_iff hargs).symm
  unfold fire Rule.references
  simp only [first_append_iff, hantecedents, first_cons_iff, first_nil_iff, and_false, or_false,
    hconsequent, bind_eq_error_iff (x := strength _ _ _ _), bind_pure_eq_error_iff,
    ← isOk_iff_forall_ne_error, exists_and_right]

/-! ## 2. Grids -/

/-- What is wrong with the rules about an output: the consequent of one is on another grid than that
of the first one. The first such consequent counts. -/
def Disagreement (outputs : Registry Variable) (rules : List Rule) (name : String)
    (fault : Fault) : Prop :=
  ∃ r rest s, about name rules = r :: rest ∧ Names outputs r.consequent s ∧
    First (fun r' fault => ∃ t, Names outputs r'.consequent t ∧ s.Differs t fault) rest fault

theorem Disagreement.fault_eq {rules : List Rule} {name : String}
    (h : Disagreement outputs rules name fault) :
    ∃ left right, fault = .domainMismatch left right := by
  obtain ⟨r, rest, s, -, -, hfirst⟩ := h
  obtain ⟨r', -, t, -, -, hfault⟩ := hfirst.exists_mem
  exact ⟨_, _, hfault⟩

/-- The fired sets about an output cannot be joined iff the rules about it disagree. -/
theorem unionAll_setsAbout_eq_error_iff {rules : List Rule} {fired : List (String × FuzzySet)}
    (h : List.Forall₂ (fun r f => f.1 = r.consequent.subject ∧
      Fires lookup inputs outputs args r f.2) rules fired) {name : String} :
    FuzzySet.unionAll (setsAbout name fired) = .error fault ↔
      Disagreement outputs rules name fault := by
  have hsets := forall₂_setsAbout h name
  cases hrules : about name rules with
  | nil =>
    rw [hrules, List.forall₂_nil_left_iff] at hsets
    simp [Disagreement, hrules, hsets, FuzzySet.unionAll]
  | cons r rest =>
    rw [hrules, List.forall₂_cons_left_iff] at hsets
    obtain ⟨t, ts, hrt, hts, hsets⟩ := hsets
    obtain ⟨s, hs, hname, hgrid⟩ := hrt.consequent
    have hfirst : First (fun r' fault => ∃ t', Names outputs r'.consequent t' ∧ s.Differs t' fault)
        rest fault ↔ First t.Differs ts fault := by
      refine first_congr_forall₂ (hts.imp fun r' u hr' fault => ?_)
      obtain ⟨s', hs', hname', hgrid'⟩ := hr'.consequent
      rw [FuzzySet.differs_congr hname hgrid hname' hgrid']
      constructor
      · rintro ⟨_, ht', h⟩
        exact hs'.unique ht' ▸ h
      · intro h
        exact ⟨s', hs', h⟩
    rw [hsets, FuzzySet.unionAll_cons_eq_error_iff, ← hfirst]
    constructor
    · intro h
      exact ⟨r, rest, s, hrules, hs, h⟩
    · rintro ⟨r', rest', s', hrules', hs', h⟩
      obtain ⟨rfl, rfl⟩ := List.cons.inj (hrules.symm.trans hrules')
      rwa [hs.unique hs']

/-- The conclusions cannot be drawn iff there is an output whose sets cannot be joined. -/
theorem conclude_eq_error_iff {policy : ZeroHeight} {m : Defuzzifier}
    {fired : List (String × FuzzySet)} {names : List String} :
    conclude policy m (grouped fired) names = .error fault ↔
      First (fun name fault => FuzzySet.unionAll (setsAbout name fired) = .error fault) names
        fault := by
  induction names with
  | nil => exact ⟨nofun, nofun⟩
  | cons name names ih =>
    rw [conclude_cons, bind_eq_error_iff, first_cons_iff, ← isOk_iff_forall_ne_error, ← ih,
      ← exists_and_right]
    exact or_congr_right (exists_congr fun u => and_congr_right fun _ => bind_pure_eq_error_iff)

/-! ## 3. Evaluation -/

/-- **The evaluation fails with the first objection to a reference, and if there is none with the
first disagreement about an output.** -/
theorem evaluate_eq_error_iff {settings : Settings} {m : Defuzzifier} {rules : List Rule}
    (hargs : Covers args inputs) :
    evaluate settings m inputs outputs rules args = .error fault ↔
      First (Objection settings.lookup inputs outputs args) (rules.flatMap Rule.references) fault ∨
      (∀ fault', ¬ First (Objection settings.lookup inputs outputs args)
        (rules.flatMap Rule.references) fault') ∧
      First (Disagreement outputs rules) outputs.names fault := by
  have hfire : ∀ fault, rules.mapM (fire settings.lookup inputs outputs args) = .error fault ↔
      First (Objection settings.lookup inputs outputs args) (rules.flatMap Rule.references)
        fault := by
    intro fault
    rw [mapM_eq_error_iff, first_flatMap_iff]
    exact first_congr fun r _ fault => fire_eq_error_iff hargs
  simp only [evaluate_eq, ← hfire, ← isOk_iff_forall_ne_error, bind_eq_error_iff (x := List.mapM _ _),
    bind_pure_eq_error_iff, ← exists_and_right]
  refine or_congr_right (exists_congr fun fired => and_congr_right fun hfired => ?_)
  rw [conclude_eq_error_iff]
  exact first_congr fun name _ fault =>
    unionAll_setsAbout_eq_error_iff (mapM_fire_eq_ok_iff.1 hfired)

end Evaluation

end FuzzyControl
