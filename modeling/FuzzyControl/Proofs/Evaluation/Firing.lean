import FuzzyControl.Proofs.Results
import FuzzyControl.Proofs.FuzzySet.Union
import FuzzyControl.Evaluation

/-!
# Which rules fire, and into what

The evaluation of a rule goes through look-ups that can fail. This file says what a rule means
without going through them in any order, and that the evaluation finds just that.

* `Names`: the set that a proposition names; `Holds`: how far an antecedent holds;
* `Strength` and `Fires`: how far a rule holds, and its clipped consequent;
* `fire_eq_ok_iff`, `mapM_fire_eq_ok_iff`: the evaluation of one rule, and of a list.
-/

namespace FuzzyControl.Evaluation

open Results

/-! ## 1. Propositions -/

/-- The set that a proposition names. -/
def Names (side : Registry Variable) (p : Proposition) (s : FuzzySet) : Prop :=
  ∃ v, side.find? p.subject = some v ∧ v.sets.find? p.set = some s

/-- All sets on one side of a controller are valid. -/
def ValidSets (side : Registry Variable) : Prop :=
  ∀ v ∈ side.values, ∀ s ∈ v.sets.values, s.Valid

variable {lookup : Lookup} {inputs outputs : Registry Variable} {args : Arguments}

theorem resolve_eq_ok_iff {side : Registry Variable} {p : Proposition} {s : FuzzySet} :
    resolve side p = .ok s ↔ Names side p s := by
  have hbind : ((side.find? p.subject).bind fun v => v.sets.find? p.set) = some s ↔
      Names side p s := Option.bind_eq_some_iff
  rw [← hbind]
  unfold resolve
  cases (side.find? p.subject).bind fun v => v.sets.find? p.set with
  | none => simp
  | some t => simp

theorem Names.unique {side : Registry Variable} {p : Proposition} {s t : FuzzySet}
    (hs : Names side p s) (ht : Names side p t) : s = t := by
  obtain ⟨v, hv, hs⟩ := hs
  obtain ⟨w, hw, ht⟩ := ht
  obtain rfl : v = w := Option.some.inj (hv.symm.trans hw)
  exact Option.some.inj (hs.symm.trans ht)

theorem mem_values_of_find? {α : Type} {r : Registry α} {name : String} {v : α}
    (h : r.find? name = some v) : v ∈ r.values :=
  List.mem_map_of_mem ((r.find?_eq_some_iff name v).1 h)

theorem Names.mem {side : Registry Variable} {p : Proposition} {s : FuzzySet}
    (h : Names side p s) : ∃ v ∈ side.values, s ∈ v.sets.values := by
  obtain ⟨v, hv, hs⟩ := h
  exact ⟨v, mem_values_of_find? hv, mem_values_of_find? hs⟩

theorem Names.valid {side : Registry Variable} {p : Proposition} {s : FuzzySet}
    (h : Names side p s) (hside : ValidSets side) : s.Valid := by
  obtain ⟨v, hv, hs⟩ := h.mem
  exact hside v hv s hs

theorem Names.subject_mem {side : Registry Variable} {p : Proposition} {s : FuzzySet}
    (h : Names side p s) : p.subject ∈ side.names := by
  obtain ⟨v, hv, -⟩ := h
  by_contra hnot
  rw [(side.find?_eq_none_iff p.subject).2 hnot] at hv
  cases hv

/-- How far an antecedent holds: the membership of its argument in the set that it names. -/
def Holds (lookup : Lookup) (inputs : Registry Variable) (args : Arguments) (p : Proposition)
    (m : Float) : Prop :=
  ∃ s x, Names inputs p s ∧ args.find? p.subject = some x ∧ s.membershipAt x lookup = .ok m

theorem grade_eq_ok_iff {p : Proposition} {m : Float} :
    grade lookup inputs args p = .ok m ↔ Holds lookup inputs args p m := by
  unfold grade Holds
  simp only [bind_eq_ok_iff, resolve_eq_ok_iff]
  cases args.find? p.subject with
  | none => simp
  | some x => simp

/-! ## 2. Rules -/

/-- How far the antecedents of a rule hold together; zero without antecedents. -/
def Strength (lookup : Lookup) (inputs : Registry Variable) (args : Arguments) (r : Rule)
    (w : Float) : Prop :=
  ∃ ms, List.Forall₂ (Holds lookup inputs args) r.antecedents ms ∧
    w = (r.connective.join ms).getD 0

theorem strength_eq_ok_iff {r : Rule} {w : Float} :
    strength lookup inputs args r = .ok w ↔ Strength lookup inputs args r w := by
  unfold strength Strength
  simp only [bind_eq_ok_iff, pure_eq_ok_iff, mapM_eq_ok_iff, grade_eq_ok_iff]

theorem Strength.unique {r : Rule} {w w' : Float} (h : Strength lookup inputs args r w)
    (h' : Strength lookup inputs args r w') : w = w' :=
  Except.ok.inj ((strength_eq_ok_iff.2 h).symm.trans (strength_eq_ok_iff.2 h'))

theorem exists_strength_iff {r : Rule} : (∃ w, Strength lookup inputs args r w) ↔
    ∀ p ∈ r.antecedents, ∃ m, Holds lookup inputs args p m := by
  constructor
  · rintro ⟨w, ms, hms, -⟩ p hp
    obtain ⟨m, -, hm⟩ := exists_mem_right hms p hp
    exact ⟨m, hm⟩
  · intro h
    obtain ⟨ms, hms⟩ := exists_forall₂ h
    exact ⟨_, ms, hms, rfl⟩

/-- What a rule concludes: its consequent, with no membership above the strength of the rule. -/
def Fires (lookup : Lookup) (inputs outputs : Registry Variable) (args : Arguments) (r : Rule)
    (t : FuzzySet) : Prop :=
  ∃ w s, Strength lookup inputs args r w ∧ Names outputs r.consequent s ∧
    t = s.mapMembership (least w)

theorem fire_eq_ok_iff {r : Rule} {f : String × FuzzySet} :
    fire lookup inputs outputs args r = .ok f ↔
      f.1 = r.consequent.subject ∧ Fires lookup inputs outputs args r f.2 := by
  unfold fire Fires
  simp only [bind_eq_ok_iff, pure_eq_ok_iff, strength_eq_ok_iff, resolve_eq_ok_iff, Prod.ext_iff]
  constructor
  · intro h
    obtain ⟨w, hw, s, hs, hsubject, hset⟩ := h
    rw [clip_eq] at hset
    exact ⟨hsubject, w, s, hw, hs, hset⟩
  · intro h
    obtain ⟨hsubject, w, s, hw, hs, hset⟩ := h
    rw [← clip_eq] at hset
    exact ⟨w, hw, s, hs, hsubject, hset⟩

theorem exists_fires_iff {r : Rule} : (∃ t, Fires lookup inputs outputs args r t) ↔
    (∀ p ∈ r.antecedents, ∃ m, Holds lookup inputs args p m) ∧
      ∃ s, Names outputs r.consequent s := by
  rw [← exists_strength_iff]
  constructor
  · intro h
    obtain ⟨t, w, s, hw, hs, -⟩ := h
    exact ⟨⟨w, hw⟩, s, hs⟩
  · intro h
    obtain ⟨⟨w, hw⟩, s, hs⟩ := h
    exact ⟨_, w, s, hw, hs, rfl⟩

/-- **Rules are evaluated with success iff each of them fires.** -/
theorem mapM_fire_eq_ok_iff {rules : List Rule} {fired : List (String × FuzzySet)} :
    rules.mapM (fire lookup inputs outputs args) = .ok fired ↔
      List.Forall₂ (fun r f => f.1 = r.consequent.subject ∧
        Fires lookup inputs outputs args r f.2) rules fired := by
  rw [mapM_eq_ok_iff]
  simp only [fire_eq_ok_iff]

end FuzzyControl.Evaluation
