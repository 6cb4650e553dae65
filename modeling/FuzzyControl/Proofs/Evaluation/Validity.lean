import FuzzyControl.Proofs.Evaluation.Reference
import FuzzyControl.Proofs.FuzzySet.Lookup

/-!
# What the evaluation makes of valid sets

If the antecedents of a rule hold as far as memberships do, its strength is in the unit interval, and
a consequent clipped at it stays valid. What is looked up exactly, or at the nearest value, is one of
the memberships of the set. On a line between two samples the rounding can leave the interval; there
more has to be known about the samples.

* `Strength.inUnit_of_holds`, `Fires.valid_of_holds`: the strength and the clipped consequent;
* `valid_evaluate_of_holds`: every aggregated set is valid if the antecedents hold in the interval;
* `valid_evaluate`: they do, unless memberships are interpolated.
-/

namespace FuzzyControl

open Double Results

namespace Evaluation

variable {lookup : Lookup} {inputs outputs : Registry Variable} {args : Arguments}

/-! ## 1. Rules -/

/-- The joint membership is one of those that are joined. -/
theorem mem_of_join {c : Connective} {ms : List Float} {w : Float} (h : c.join ms = some w) :
    w ∈ ms := by
  cases c with
  | and => exact mem_of_least? h
  | or => exact mem_of_greatest? h

/-- The antecedents of a rule hold in the unit interval, as far as they hold. -/
def HoldInUnit (lookup : Lookup) (inputs : Registry Variable) (args : Arguments) (r : Rule) : Prop :=
  ∀ p ∈ r.antecedents, ∀ m, Holds lookup inputs args p m → InUnit m

theorem Strength.inUnit_of_holds {r : Rule} {w : Float} (h : Strength lookup inputs args r w)
    (hholds : HoldInUnit lookup inputs args r) : InUnit w := by
  obtain ⟨ms, hms, rfl⟩ := h
  cases hjoin : r.connective.join ms with
  | none => exact inUnit_zero
  | some w =>
    obtain ⟨p, hp, hw⟩ := exists_mem_left hms w (mem_of_join hjoin)
    exact hholds p hp w hw

/-- A clipped consequent is valid. -/
theorem Fires.valid_of_holds {r : Rule} {t : FuzzySet} (h : Fires lookup inputs outputs args r t)
    (hholds : HoldInUnit lookup inputs args r) (hout : ValidSets outputs) : t.Valid := by
  obtain ⟨w, s, hw, hs, rfl⟩ := h
  have hunit := hw.inUnit_of_holds hholds
  exact (hs.valid hout).mapMembership fun _ hm => hunit.least hm

theorem Holds.inUnit {p : Proposition} {m : Float} (h : Holds lookup inputs args p m)
    (hlookup : lookup ≠ .interpolate) (hin : ValidSets inputs) : InUnit m := by
  obtain ⟨s, x, hs, -, hm⟩ := h
  exact (hs.valid hin).inUnit m (FuzzySet.mem_of_membershipAt hlookup hm)

theorem Strength.inUnit {r : Rule} {w : Float} (h : Strength lookup inputs args r w)
    (hlookup : lookup ≠ .interpolate) (hin : ValidSets inputs) : InUnit w :=
  h.inUnit_of_holds fun _ _ _ hp => hp.inUnit hlookup hin

/-! ## 2. Conclusions -/

variable {settings : Settings} {m : Defuzzifier} {rules : List Rule} {result : Conclusions}

/-- **Every aggregated set is valid if antecedents hold in the unit interval.** -/
theorem valid_evaluate_of_holds
    (hholds : ∀ r ∈ rules, HoldInUnit settings.lookup inputs args r) (hout : ValidSets outputs)
    (h : evaluate settings m inputs outputs rules args = .ok result) :
    ∀ c ∈ result.values, c.aggregated.Valid := by
  obtain ⟨fired, hfired, hes⟩ := evaluate_eq_ok_iff.1 h
  intro c hc
  obtain ⟨e, he, rfl⟩ := List.mem_map.1 hc
  obtain ⟨u, hu, hdrawn⟩ := mem_conclude hes e he
  have hsets : ∀ t ∈ setsAbout e.1 fired, t.Valid := by
    intro t ht
    obtain ⟨r, hr, hfires⟩ := exists_mem_left (forall₂_setsAbout hfired e.1) t ht
    exact hfires.valid_of_holds (hholds r (List.mem_of_mem_filter hr)) hout
  rw [hdrawn]
  exact (FuzzySet.Valid.unionAll hsets hu).rename e.1

/-- **Every aggregated set is valid**, unless memberships are interpolated. -/
theorem valid_evaluate (hlookup : settings.lookup ≠ .interpolate) (hin : ValidSets inputs)
    (hout : ValidSets outputs)
    (h : evaluate settings m inputs outputs rules args = .ok result) :
    ∀ c ∈ result.values, c.aggregated.Valid :=
  valid_evaluate_of_holds (fun _ _ _ _ _ hp => hp.inUnit hlookup hin) hout h

end Evaluation

end FuzzyControl
