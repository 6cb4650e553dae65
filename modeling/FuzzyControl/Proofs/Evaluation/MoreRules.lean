import FuzzyControl.Proofs.Evaluation.Interchange
import FuzzyControl.Proofs.Evaluation.Validity

/-!
# Further rules among the rules

A place of a conclusion holds the greatest contribution, so further rules can raise it and never
lower it, wherever they are put. A rule that does not hold at all clips its consequent down to
zero; that is no more than any membership, and nothing changes. If such a rule comes first about an
output, the conclusion is on the grid of its consequent, which then has to be the one grid of all.

* `Inserts`: rules put in among others, anywhere;
* `Silent`: a rule that does not hold at all; `Silent.contributes`: it contributes zero;
* `evaluate_more_rules`: what further rules do to the conclusions.
-/

namespace FuzzyControl.Evaluation

open Double

variable {settings : Settings} {m : Defuzzifier} {lookup : Lookup}
  {inputs outputs : Registry Variable} {args : Arguments} {rules extra rules' : List Rule}
  {result result' : Conclusions}

/-! ## 1. Rules among others -/

/-- The third list is the first with the rules of the second put in, anywhere. -/
inductive Inserts : List Rule → List Rule → List Rule → Prop
  | nil : Inserts [] [] []
  | keep {rules extra rules' : List Rule} (r : Rule) (h : Inserts rules extra rules') :
      Inserts (r :: rules) extra (r :: rules')
  | insert {rules extra rules' : List Rule} (r : Rule) (h : Inserts rules extra rules') :
      Inserts rules (r :: extra) (r :: rules')

theorem Inserts.mem_iff (h : Inserts rules extra rules') {r : Rule} :
    r ∈ rules' ↔ r ∈ rules ∨ r ∈ extra := by
  induction h with
  | nil => simp
  | keep r' _ ih => rw [List.mem_cons, List.mem_cons, ih, or_assoc]
  | insert r' _ ih => rw [List.mem_cons, List.mem_cons, ih, or_left_comm]

theorem Inserts.subset (h : Inserts rules extra rules') : ∀ r ∈ rules, r ∈ rules' :=
  fun _ hr => h.mem_iff.2 (.inl hr)

/-- What is concluded about by rules is concluded about by any rules that they are among. -/
theorem exists_conclusion (hsub : ∀ r ∈ rules, r ∈ rules') {name : String}
    (h : evaluate settings m inputs outputs rules args = .ok result)
    (h' : evaluate settings m inputs outputs rules' args = .ok result')
    (hname : name ∈ result.names) : ∃ c', result'.find? name = some c' := by
  rw [names_evaluate h, List.mem_filter, List.any_eq_true] at hname
  obtain ⟨hout, r, hr, hsubject⟩ := hname
  have hmem : name ∈ result'.names := by
    rw [names_evaluate h', List.mem_filter, List.any_eq_true]
    exact ⟨hout, r, hsub r hr, hsubject⟩
  refine Option.ne_none_iff_exists'.1 fun hnone => ?_
  exact (result'.find?_eq_none_iff name).1 hnone hmem

/-! ## 2. Rules that do not hold -/

/-- A rule is silent if it does not hold at all. -/
def Silent (lookup : Lookup) (inputs : Registry Variable) (args : Arguments) (r : Rule) : Prop :=
  ∃ w, Strength lookup inputs args r w ∧ (w == 0) = true

/-- A silent rule contributes zero, the least that there is. -/
theorem Silent.contributes {i : Nat} {r : Rule} {x : Float} (h : Silent lookup inputs args r)
    (hx : Contributes lookup inputs outputs args i r x) (hout : ValidSets outputs) :
    (x == 0) = true := by
  obtain ⟨w, hw, hzero⟩ := h
  obtain ⟨w', s, n, hw', hs, hn, rfl⟩ := hx
  obtain rfl := hw.unique hw'
  obtain ⟨hnum, hnonneg, -⟩ :=
    (inUnit_iff n).1 ((hs.valid hout).inUnit n (List.mem_of_getElem? hn))
  obtain ⟨hnum', -, hvalue⟩ := (beq_iff w 0).1 hzero
  refine (beq_iff _ _).2 ⟨isNaN_least_right w hnum, rfl, ?_⟩
  rw [value_least hnum' hnum, hvalue, value_zero]
  exact min_eq_left hnonneg

/-- What a rule contributes is a membership. -/
theorem Contributes.inUnit {i : Nat} {r : Rule} {x : Float}
    (hx : Contributes lookup inputs outputs args i r x) (hlookup : lookup ≠ .interpolate)
    (hin : ValidSets inputs) (hout : ValidSets outputs) : InUnit x := by
  obtain ⟨w, s, n, hw, hs, hn, rfl⟩ := hx
  exact (hw.inUnit hlookup hin).least
    ((hs.valid hout).inUnit n (List.mem_of_getElem? hn))

/-! ## 3. What further rules do to a conclusion -/

section Conclusions

variable {name : String} {c c' : Conclusion}

/-- Further rules do not lower a membership. -/
theorem Concludes.le_of_subset (hout : ValidSets outputs) (hsub : ∀ r ∈ rules, r ∈ rules')
    (hc : Concludes settings m inputs outputs args (about name rules) name c)
    (hc' : Concludes settings m inputs outputs args (about name rules') name c') {i : Nat}
    {x y : Float} (hx : c.aggregated.memberships[i]? = some x)
    (hy : c'.aggregated.memberships[i]? = some y) : x ≤ y :=
  ((Covered.of_subset hout hsub).about name).le hc hc' hx hy

/-- Silent rules do not raise one. -/
theorem Concludes.ge_of_silent (hlookup : settings.lookup ≠ .interpolate)
    (hin : ValidSets inputs) (hout : ValidSets outputs) (hinserts : Inserts rules extra rules')
    (hsilent : ∀ r ∈ extra, Silent settings.lookup inputs args r)
    (hc : Concludes settings m inputs outputs args (about name rules) name c)
    (hc' : Concludes settings m inputs outputs args (about name rules') name c') {i : Nat}
    {x y : Float} (hx : c.aggregated.memberships[i]? = some x)
    (hy : c'.aggregated.memberships[i]? = some y) : y ≤ x := by
  obtain ⟨r, hr, hry⟩ := hc'.attained i y hy
  obtain ⟨hmem, hsubject⟩ := List.mem_filter.1 hr
  rcases hinserts.mem_iff.1 hmem with hold | hnew
  · exact hc.highest i x hx r (List.mem_filter.2 ⟨hold, hsubject⟩) y hry
  · obtain ⟨r', -, hrx⟩ := hc.attained i x hx
    have hzero : y ≤ 0 := le_of_beq ((hsilent r hnew).contributes hry hout)
    exact le_trans hzero (hrx.inUnit hlookup hin hout).1

end Conclusions

/-! ## 4. Evaluations -/

/-- **Further rules raise the conclusions, and silent ones leave them as they are.** Wherever rules
are put in, every output that there was a conclusion about still has one, on the same grid, and no
membership is less than before. If the memberships are looked up exactly or at the nearest value,
and none of the further rules holds at all, then the aggregated sets and the crisp values are equal
as doubles. -/
theorem evaluate_more_rules (settings : Settings) (m : Defuzzifier)
    (inputs outputs : Registry Variable) (args : Arguments) (rules extra rules' : List Rule)
    (result result' : Conclusions) (hin : ValidSets inputs) (hout : ValidSets outputs)
    (hinserts : Inserts rules extra rules')
    (h : evaluate settings m inputs outputs rules args = .ok result)
    (h' : evaluate settings m inputs outputs rules' args = .ok result') :
    (∀ name c, result.find? name = some c → ∃ c', result'.find? name = some c' ∧
      c.aggregated.SharesGrid c'.aggregated ∧
      List.Forall₂ (· ≤ ·) c.aggregated.memberships c'.aggregated.memberships) ∧
    (settings.lookup = .exact ∨ settings.lookup = .nearest →
      (∀ r ∈ extra, Silent settings.lookup inputs args r) →
      ∀ name c, result.find? name = some c → ∃ c', result'.find? name = some c' ∧
        c.aggregated.agrees c'.aggregated = true ∧ Alike c.crisp c'.crisp) := by
  -- A conclusion of the rules, the one of more rules that goes with it, and their common grid.
  have hboth : ∀ name c, result.find? name = some c → ∃ c', result'.find? name = some c' ∧
      Concludes settings m inputs outputs args (about name rules) name c ∧
      Concludes settings m inputs outputs args (about name rules') name c' ∧
      c.aggregated.SharesGrid c'.aggregated := by
    intro name c hc
    have hentry := (result.find?_eq_some_iff name c).1 hc
    have hmem : name ∈ result.names := List.mem_map_of_mem hentry
    obtain ⟨c', hc'⟩ := exists_conclusion hinserts.subset h h' hmem
    have hconcludes := concludes_evaluate hout h (name, c) hentry
    have hconcludes' := concludes_evaluate hout h' (name, c')
      ((result'.find?_eq_some_iff name c').1 hc')
    rw [names_evaluate h] at hmem
    have hgrid := ((evaluate_isOk_iff hout).1 ⟨result', h'⟩).2 name (List.mem_of_mem_filter hmem)
    exact ⟨c', hc', hconcludes, hconcludes', hconcludes.sharesGrid
      ((Covered.of_subset hout hinserts.subset).about name) hgrid hconcludes'⟩
  constructor
  · intro name c hc
    obtain ⟨c', hc', hconcludes, hconcludes', hgrid⟩ := hboth name c hc
    exact ⟨c', hc', hgrid, forall₂_memberships hgrid fun i x y hx hy =>
      hconcludes.le_of_subset hout hinserts.subset hconcludes' hx hy⟩
  · intro hlookup hsilent name c hc
    obtain ⟨c', hc', hconcludes, hconcludes', hgrid⟩ := hboth name c hc
    have hnot : settings.lookup ≠ .interpolate := by
      rcases hlookup with h | h <;> rw [h] <;> decide
    exact ⟨c', hc', hconcludes.agrees_of_le hgrid (fun i x y hx hy =>
      ⟨hconcludes.le_of_subset hout hinserts.subset hconcludes' hx hy,
        hconcludes.ge_of_silent hnot hin hout hinserts hsilent hconcludes' hx hy⟩) hconcludes'⟩

/-- The rule that turns the fan on with the noise. -/
def noiseRule : Rule := ⟨.or, [⟨"noise", "on"⟩], ⟨"fan", "on"⟩⟩

/-- Without noise the rule for it changes nothing, though it comes first. -/
theorem evaluate_more_rules_noise :
    ValidSets (switches "noise" "heat" (by decide)) ∧ ValidSets (switch "fan") ∧
    Inserts [fanRule] [noiseRule] [noiseRule, fanRule] ∧
    (∀ r ∈ [noiseRule],
      Silent .exact (switches "noise" "heat" (by decide)) heatWithoutNoise r) ∧
    ∃ result result' c c',
      evaluate {} .centroid (switches "noise" "heat" (by decide)) (switch "fan") [fanRule]
        heatWithoutNoise = .ok result ∧
      evaluate {} .centroid (switches "noise" "heat" (by decide)) (switch "fan")
        [noiseRule, fanRule] heatWithoutNoise = .ok result' ∧
      result.find? "fan" = some c ∧ result'.find? "fan" = some c' ∧
      c.aggregated.agrees c'.aggregated = true ∧ Alike c.crisp c'.crisp := by
  have hin := validSets_switches "noise" "heat" (by decide)
  have hout := validSets_switch "fan"
  have hinserts : Inserts [fanRule] [noiseRule] [noiseRule, fanRule] :=
    .insert noiseRule (.keep fanRule .nil)
  have hsilent : ∀ r ∈ [noiseRule],
      Silent .exact (switches "noise" "heat" (by decide)) heatWithoutNoise r := by
    intro r hr
    obtain rfl := List.mem_singleton.1 hr
    exact ⟨0, strength_eq_ok_iff.1 rfl, by decide⟩
  let fanOn : Conclusions := ⟨[("fan", ⟨⟨"fan", [⟨0, 0⟩, ⟨1, 1⟩]⟩, 1⟩)], by simp⟩
  have h : evaluate {} .centroid (switches "noise" "heat" (by decide)) (switch "fan") [fanRule]
      heatWithoutNoise = .ok fanOn := rfl
  have h' : evaluate {} .centroid (switches "noise" "heat" (by decide)) (switch "fan")
      [noiseRule, fanRule] heatWithoutNoise = .ok fanOn := rfl
  obtain ⟨c', hc', hagrees⟩ := (evaluate_more_rules {} .centroid
    (switches "noise" "heat" (by decide)) (switch "fan") heatWithoutNoise [fanRule] [noiseRule]
    [noiseRule, fanRule] fanOn fanOn hin hout hinserts h h').2 (.inl rfl) hsilent "fan" _ rfl
  exact ⟨hin, hout, hinserts, hsilent, fanOn, fanOn, _, c', h, h', rfl, hc', hagrees⟩

end FuzzyControl.Evaluation
