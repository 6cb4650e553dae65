import FuzzyControl.Proofs.Evaluation.Reference

/-!
# What a conclusion depends on

What is concluded about an output is made of the sets that its own rules fire into, in their order.
The sets about other outputs stand between them and are sorted out, and nothing is looked at but
what those rules refer to. So two evaluations agree on an output as soon as they agree on its rules
and on what these refer to, and all other rules can be left out.

* `SameReferences`: some rules refer to the same sets and arguments in two evaluations;
* `mapM_fire_about`: the rules about an output fire by themselves as they do among others;
* `find?_evaluate`: the conclusion about an output, from the sets about it;
* `evaluate_noninterference`: evaluations that agree on what an output refers to.
-/

namespace FuzzyControl

/-- A registry that has one name at most has one entry at most. -/
theorem Registry.entries_eq_of_find? {α : Type} {r : Registry α} {name : String}
    (h : ∀ other, other ≠ name → r.find? other = none) :
    r.entries = ((r.find? name).map fun v => (name, v)).toList := by
  have hkey : ∀ e ∈ r.entries, e.1 = name := by
    intro e he
    by_contra hne
    have hfound := (r.find?_eq_some_iff e.1 e.2).2 he
    rw [h e.1 hne] at hfound
    cases hfound
  have hnodup := r.nodup
  unfold find?
  generalize r.entries = es at hkey hnodup ⊢
  match es with
  | [] => rfl
  | [e] =>
    obtain rfl := hkey e List.mem_cons_self
    simp [findIn]
  | e :: e' :: rest =>
    -- a second entry would repeat the name
    refine absurd ((hkey e (by simp)).trans (hkey e' (by simp)).symm) ?_
    rw [List.map_cons, List.map_cons, List.nodup_cons, List.mem_cons, not_or] at hnodup
    exact hnodup.1.1

namespace Evaluation

open Results

variable {lookup : Lookup} {inputs inputs' outputs outputs' : Registry Variable}
  {args args' : Arguments} {rules rules' rs : List Rule} {fired fired' : List (String × FuzzySet)}
  {settings : Settings} {m : Defuzzifier} {result result' : Conclusions}

/-! ## 1. The rules about an output -/

/-- Some rules refer to the same sets, and look up the same arguments, in two evaluations. -/
structure SameReferences (inputs inputs' outputs outputs' : Registry Variable)
    (args args' : Arguments) (rs : List Rule) : Prop where
  antecedents : ∀ r ∈ rs, ∀ p ∈ r.antecedents,
    resolve inputs p = resolve inputs' p ∧ args.find? p.subject = args'.find? p.subject
  consequents : ∀ r ∈ rs, resolve outputs r.consequent = resolve outputs' r.consequent

/-- Rules that refer to the same fire into the same. -/
theorem SameReferences.fire_eq (h : SameReferences inputs inputs' outputs outputs' args args' rs)
    {r : Rule} (hr : r ∈ rs) :
    fire lookup inputs outputs args r = fire lookup inputs' outputs' args' r := by
  have hgrades : r.antecedents.mapM (grade lookup inputs args) =
      r.antecedents.mapM (grade lookup inputs' args') := by
    refine mapM_congr fun p hp => ?_
    obtain ⟨hset, harg⟩ := h.antecedents r hr p hp
    unfold grade
    rw [hset, harg]
  unfold fire strength
  rw [hgrades, h.consequents r hr]

/-- **The rules about an output fire by themselves as they do among others.** -/
theorem mapM_fire_about (h : rules.mapM (fire lookup inputs outputs args) = .ok fired)
    (name : String) : (about name rules).mapM (fire lookup inputs outputs args) =
      .ok (fired.filter fun f => f.1 == name) := by
  rw [mapM_eq_ok_iff] at h ⊢
  refine List.rel_filter (fun {r f} hrf => ?_) h
  show (r.consequent.subject == name) = true ↔ (f.1 == name) = true
  rw [(fire_eq_ok_iff.1 hrf).1]

theorem setsAbout_filter (name other : String) :
    setsAbout other (fired.filter fun f => f.1 == name) =
      if other = name then setsAbout name fired else [] := by
  unfold setsAbout
  rw [List.filter_filter]
  split_ifs with h
  · subst h
    simp
  · have hnone : (fired.filter fun f => f.1 == other && f.1 == name) = [] := by
      rw [List.filter_eq_nil_iff]
      intro f _ hf
      rw [Bool.and_eq_true, beq_iff_eq, beq_iff_eq] at hf
      exact h (hf.1.symm.trans hf.2)
    rw [hnone]
    rfl

/-! ## 2. The conclusion about an output -/

/-- **The conclusion about an output is drawn from the union of the sets about it.** -/
theorem find?_evaluate
    (hes : conclude settings.zeroHeight m (grouped fired) outputs.names = .ok result.entries) {name : String}
    (hname : name ∈ outputs.names) :
    ∃ u, FuzzySet.unionAll (setsAbout name fired) = .ok u ∧
      result.find? name = u.map (drawn settings.zeroHeight m name) := by
  obtain ⟨u, hu⟩ := conclude_isOk_iff.1 ⟨_, hes⟩ name hname
  have hnames := map_fst_conclude hes
  refine ⟨u, hu, ?_⟩
  cases u with
  | none =>
    refine (result.find?_eq_none_iff name).2 fun hmem => ?_
    change name ∈ result.entries.map Prod.fst at hmem
    rw [hnames, List.mem_filter, (FuzzySet.unionAll_eq_none _).1 hu] at hmem
    exact absurd hmem.2 (by simp)
  | some s =>
    have hmem : name ∈ result.entries.map Prod.fst := by
      rw [hnames, List.mem_filter]
      refine ⟨hname, ?_⟩
      cases hsets : setsAbout name fired with
      | nil =>
        rw [(FuzzySet.unionAll_eq_none _).2 hsets] at hu
        cases hu
      | cons t ts => rfl
    obtain ⟨e, he, rfl⟩ := List.mem_map.1 hmem
    obtain ⟨v, hv, hdrawn⟩ := mem_conclude hes e he
    obtain rfl : s = v := Option.some.inj (Except.ok.inj (hu.symm.trans hv))
    exact (result.find?_eq_some_iff _ _).2 (hdrawn ▸ he)

/-- An output that is none is not concluded about. -/
theorem find?_evaluate_of_not_mem
    (hes : conclude settings.zeroHeight m (grouped fired) outputs.names = .ok result.entries) {name : String}
    (hname : name ∉ outputs.names) : result.find? name = none := by
  refine (result.find?_eq_none_iff name).2 fun hmem => hname ?_
  change name ∈ result.entries.map Prod.fst at hmem
  rw [map_fst_conclude hes] at hmem
  exact List.mem_of_mem_filter hmem

/-! ## 3. The rules about other outputs -/

theorem evaluate_eq_ok_iff_conclude :
    evaluate settings m inputs outputs rules args = .ok result ↔
      ∃ fired, rules.mapM (fire settings.lookup inputs outputs args) = .ok fired ∧
        conclude settings.zeroHeight m (grouped fired) outputs.names = .ok result.entries := by
  simp only [evaluate_eq_ok_iff, mapM_fire_eq_ok_iff]

/-- **The rules about other outputs can be left out.** What is concluded about one output is then all
that is concluded. -/
theorem evaluate_about (h : evaluate settings m inputs outputs rules args = .ok result)
    (name : String) : ∃ only, evaluate settings m inputs outputs (about name rules) args = .ok only ∧
      only.entries = ((result.find? name).map fun c => (name, c)).toList := by
  obtain ⟨fired, hfired, hes⟩ := evaluate_eq_ok_iff_conclude.1 h
  have hunions : ∀ other ∈ outputs.names,
      ∃ u, FuzzySet.unionAll (setsAbout other (fired.filter fun f => f.1 == name)) = .ok u := by
    intro other hother
    rw [setsAbout_filter]
    split_ifs with heq
    · exact conclude_isOk_iff.1 ⟨_, hes⟩ name (heq ▸ hother)
    · exact ⟨none, rfl⟩
  obtain ⟨es, honly⟩ := (@conclude_isOk_iff settings.zeroHeight m _ _).2 hunions
  have hnodup : (es.map Prod.fst).Nodup := by
    rw [map_fst_conclude honly]
    exact outputs.nodup.filter _
  let only : Conclusions := ⟨es, hnodup⟩
  change conclude _ _ _ _ = .ok only.entries at honly
  refine ⟨only, evaluate_eq_ok_iff_conclude.2 ⟨_, mapM_fire_about hfired name, honly⟩, ?_⟩
  have hother : ∀ other, other ≠ name → only.find? other = none := by
    intro other hne
    by_cases hmem : other ∈ outputs.names
    · obtain ⟨u, hu, hfind⟩ := find?_evaluate honly hmem
      rw [setsAbout_filter, if_neg hne] at hu
      cases hu
      exact hfind
    · exact find?_evaluate_of_not_mem honly hmem
  have hsame : only.find? name = result.find? name := by
    by_cases hmem : name ∈ outputs.names
    · obtain ⟨u, hu, hfind⟩ := find?_evaluate hes hmem
      obtain ⟨u', hu', hfind'⟩ := find?_evaluate honly hmem
      rw [setsAbout_filter, if_pos rfl, hu] at hu'
      obtain rfl := Except.ok.inj hu'
      rw [hfind, hfind']
    · rw [find?_evaluate_of_not_mem hes hmem, find?_evaluate_of_not_mem honly hmem]
  rw [Registry.entries_eq_of_find? hother, hsame]

/-! ## 4. Two evaluations -/

/-- A rule that fires has its output among the outputs. -/
theorem mem_names_of_fire {name : String} {r : Rule} (hr : r ∈ about name rules)
    (h : rules.mapM (fire lookup inputs outputs args) = .ok fired) : name ∈ outputs.names := by
  obtain ⟨hrules, hsubject⟩ := List.mem_filter.1 hr
  obtain ⟨f, -, -, hfires⟩ := exists_mem_right (mapM_fire_eq_ok_iff.1 h) r hrules
  obtain ⟨s, hs, -⟩ := hfires.consequent
  rw [← beq_iff_eq.1 hsubject]
  exact hs.subject_mem

/-- The sets about an output are the same in evaluations that agree on what its rules refer to. -/
theorem setsAbout_congr {name : String}
    (h : rules.mapM (fire lookup inputs outputs args) = .ok fired)
    (h' : rules'.mapM (fire lookup inputs' outputs' args') = .ok fired')
    (hrules : about name rules = about name rules')
    (href : SameReferences inputs inputs' outputs outputs' args args' (about name rules)) :
    setsAbout name fired = setsAbout name fired' := by
  have hfired := mapM_fire_about h name
  rw [mapM_congr fun r hr => href.fire_eq hr, hrules, mapM_fire_about h' name] at hfired
  unfold setsAbout
  rw [Except.ok.inj hfired]

/-- **An output does not depend on anything but its own rules and what they refer to.** Two
evaluations with the same settings, which may have different inputs, outputs, rules and arguments,
conclude the same about an output if the rules about it are the same, and these refer to the same
sets and arguments. And the rules about it conclude by themselves what they conclude among others,
and nothing else. -/
theorem evaluate_noninterference (settings : Settings) (m : Defuzzifier) (name : String) :
    (∀ (inputs inputs' outputs outputs' : Registry Variable) (rules rules' : List Rule)
        (args args' : Arguments) (result result' : Conclusions),
      evaluate settings m inputs outputs rules args = .ok result →
      evaluate settings m inputs' outputs' rules' args' = .ok result' →
      about name rules = about name rules' → about name rules ≠ [] →
      SameReferences inputs inputs' outputs outputs' args args' (about name rules) →
      ∃ c, result.find? name = some c ∧ result'.find? name = some c) ∧
    ∀ (inputs outputs : Registry Variable) (rules : List Rule) (args : Arguments)
        (result : Conclusions), evaluate settings m inputs outputs rules args = .ok result →
      ∃ only, evaluate settings m inputs outputs (about name rules) args = .ok only ∧
        only.entries = ((result.find? name).map fun c => (name, c)).toList := by
  refine ⟨?_, fun _ _ _ _ _ h => evaluate_about h name⟩
  intro inputs inputs' outputs outputs' rules rules' args args' result result' h h' hrules hne href
  obtain ⟨fired, hfired, hes⟩ := evaluate_eq_ok_iff_conclude.1 h
  obtain ⟨fired', hfired', hes'⟩ := evaluate_eq_ok_iff_conclude.1 h'
  obtain ⟨r, hr⟩ := List.exists_mem_of_ne_nil _ hne
  obtain ⟨u, hu, hfind⟩ := find?_evaluate hes (mem_names_of_fire hr hfired)
  obtain ⟨u', hu', hfind'⟩ := find?_evaluate hes' (mem_names_of_fire (hrules ▸ hr) hfired')
  rw [← setsAbout_congr hfired hfired' hrules href, hu] at hu'
  obtain rfl := Except.ok.inj hu'
  cases u with
  | none =>
    have hlen := (forall₂_setsAbout (mapM_fire_eq_ok_iff.1 hfired) name).length_eq
    rw [(FuzzySet.unionAll_eq_none _).1 hu] at hlen
    exact absurd (List.length_eq_zero_iff.1 hlen) hne
  | some s => exact ⟨_, hfind, hfind'⟩

/-- The rule that turns the lamp on with the noise. -/
def lampRule : Rule := ⟨.or, [⟨"noise", "on"⟩], ⟨"lamp", "on"⟩⟩

/-- The fan does as with the heat alone, where there is a lamp as well. -/
theorem evaluate_noninterference_lamp :
    about "fan" [fanRule] = about "fan" [lampRule, fanRule] ∧ about "fan" [fanRule] ≠ [] ∧
    SameReferences (switch "heat") (switches "noise" "heat" (by decide)) (switch "fan")
      (switches "lamp" "fan" (by decide)) heatOn heatWithoutNoise (about "fan" [fanRule]) ∧
    ∃ c result', evaluate {} .centroid (switches "noise" "heat" (by decide))
        (switches "lamp" "fan" (by decide)) [lampRule, fanRule] heatWithoutNoise = .ok result' ∧
      result'.find? "fan" = some c ∧ c.crisp = 1 := by
  have hrules : about "fan" [fanRule] = about "fan" [lampRule, fanRule] := by decide
  have hne : about "fan" [fanRule] ≠ [] := by decide
  have href : SameReferences (switch "heat") (switches "noise" "heat" (by decide)) (switch "fan")
      (switches "lamp" "fan" (by decide)) heatOn heatWithoutNoise (about "fan" [fanRule]) := by
    have hr : ∀ r ∈ about "fan" [fanRule], r = fanRule := by decide
    refine ⟨fun r hmem p hp => ?_, fun r hmem => ?_⟩
    · obtain rfl := hr r hmem
      obtain rfl := List.mem_singleton.1 hp
      exact ⟨rfl, rfl⟩
    · obtain rfl := hr r hmem
      rfl
  refine ⟨hrules, hne, href, ?_⟩
  obtain ⟨c, hc, hc'⟩ := (evaluate_noninterference {} .centroid "fan").1 (switch "heat")
    (switches "noise" "heat" (by decide)) (switch "fan") (switches "lamp" "fan" (by decide))
    [fanRule] [lampRule, fanRule] heatOn heatWithoutNoise
    ⟨[("fan", ⟨⟨"fan", [⟨0, 0⟩, ⟨1, 1⟩]⟩, 1⟩)], by simp⟩
    ⟨[("lamp", ⟨⟨"lamp", [⟨0, 0⟩, ⟨1, 0⟩]⟩, 0⟩), ("fan", ⟨⟨"fan", [⟨0, 0⟩, ⟨1, 1⟩]⟩, 1⟩)], by simp⟩
    rfl rfl hrules hne href
  refine ⟨c, _, rfl, hc', ?_⟩
  cases hc
  rfl

end Evaluation

end FuzzyControl
