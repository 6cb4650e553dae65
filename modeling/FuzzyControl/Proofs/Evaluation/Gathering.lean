import FuzzyControl.Proofs.Results
import FuzzyControl.Proofs.FuzzySet.Union
import FuzzyControl.Evaluation

/-!
# What is gathered about an output

The rules fire one after the other, and every clipped set is filed under its output at once. What an
output finds in the end is what a list of all the clipped sets has about it, in the same order. So
the rules can be taken to fire first, and the conclusions are drawn output by output.

* `setsAbout`: the fired sets about an output; `find?_grouped`: they are what is filed under it;
* `gather_eq`, `evaluate_eq`: all rules fire, and then their sets are filed;
* `conclude_cons`: the conclusions, one output after the other;
* `conclude_isOk_iff`, `map_fst_conclude`, `mem_conclude`: when there are conclusions, about which
  outputs, and which.
-/

namespace FuzzyControl.Evaluation

open Results

variable {lookup : Lookup} {inputs outputs : Registry Variable} {args : Arguments}
  {policy : ZeroHeight} {m : Defuzzifier} {fired : List (String × FuzzySet)}

/-! ## 1. Filing the fired sets -/

/-- The fired sets about one output, in the order of the rules. -/
def setsAbout (name : String) (fired : List (String × FuzzySet)) : List FuzzySet :=
  (fired.filter fun f => f.1 == name).map Prod.snd

/-- The fired sets, filed under the outputs that they are about. -/
def grouped (fired : List (String × FuzzySet)) : Registry (List FuzzySet) :=
  fired.foldl (fun groups f => groups.collect f.1 f.2) .empty

theorem setsAbout_concat (name : String) (fired : List (String × FuzzySet))
    (f : String × FuzzySet) : setsAbout name (fired ++ [f]) =
      setsAbout name fired ++ if f.1 = name then [f.2] else [] := by
  by_cases h : f.1 = name <;> simp [setsAbout, h]

theorem grouped_concat (fired : List (String × FuzzySet)) (f : String × FuzzySet) :
    grouped (fired ++ [f]) = (grouped fired).collect f.1 f.2 := List.foldl_concat ..

/-- **What is filed under an output are the fired sets about it**, in order. If there are none,
nothing is filed under it. -/
theorem find?_grouped (fired : List (String × FuzzySet)) (name : String) :
    (grouped fired).find? name =
      if setsAbout name fired = [] then none else some (setsAbout name fired) := by
  induction fired using List.reverseRecOn with
  | nil => rfl
  | append_singleton fired f ih =>
    rw [grouped_concat, Registry.find?_collect, setsAbout_concat, ih]
    by_cases hname : f.1 = name
    · have hne : setsAbout name fired ++ [f.2] ≠ [] := by simp
      have hold : (if setsAbout name fired = [] then none else some (setsAbout name fired)).getD [] =
          setsAbout name fired := by
        split_ifs with hnone
        · exact hnone.symm
        · rfl
      rw [if_pos hname, if_pos hname, if_neg hne, hold]
    · rw [if_neg hname, if_neg hname, List.append_nil]

/-- All rules can fire before a set is filed. -/
theorem gather_eq (rules : List Rule) : gather lookup inputs outputs args rules =
    (do return grouped (← rules.mapM (fire lookup inputs outputs args))) :=
  foldlM_eq_mapM (fire lookup inputs outputs args)
    (fun (groups : Registry (List FuzzySet)) f => groups.collect f.1 f.2) rules .empty

/-- **All rules fire, and then the conclusions are drawn** from what is filed under the outputs. -/
theorem evaluate_eq (settings : Settings) (m : Defuzzifier) (inputs outputs : Registry Variable)
    (rules : List Rule) (args : Arguments) :
    evaluate settings m inputs outputs rules args = (do
      let fired ← rules.mapM (fire settings.lookup inputs outputs args)
      let entries ← conclude settings.zeroHeight m (grouped fired) outputs.names
      return Registry.ofList entries) := by
  unfold evaluate
  rw [gather_eq]
  cases rules.mapM (fire settings.lookup inputs outputs args) <;> rfl

/-! ## 2. Conclusions in the order of the outputs -/

/-- The conclusion that is drawn from the union of the sets about an output. -/
def drawn (policy : ZeroHeight) (m : Defuzzifier) (name : String) (u : FuzzySet) : Conclusion :=
  ⟨u.rename name, (u.rename name).crisp m policy⟩

/-- What is concluded about an output comes before what is concluded about those after it. -/
theorem conclude_cons (name : String) (names : List String) :
    conclude policy m (grouped fired) (name :: names) = (do
      let u ← FuzzySet.unionAll (setsAbout name fired)
      let others ← conclude policy m (grouped fired) names
      return (u.map fun s => (name, drawn policy m name s)).toList ++ others) := by
  rw [conclude, find?_grouped]
  by_cases hnone : setsAbout name fired = []
  · -- the union of no sets is none as well
    rw [if_pos hnone, hnone]
    exact (bind_pure _).symm
  · rw [if_neg hnone]
    show FuzzySet.unionAll (setsAbout name fired) >>= _ = _
    congr 1
    funext u
    cases u with
    | none => exact (bind_pure _).symm
    | some s => rfl

theorem conclude_cons_eq_ok_iff {name : String} {names : List String}
    {es : List (String × Conclusion)} :
    conclude policy m (grouped fired) (name :: names) = .ok es ↔
      ∃ u others, FuzzySet.unionAll (setsAbout name fired) = .ok u ∧
        conclude policy m (grouped fired) names = .ok others ∧
        es = (u.map fun s => (name, drawn policy m name s)).toList ++ others := by
  simp only [conclude_cons, bind_eq_ok_iff, pure_eq_ok_iff, exists_and_left]

/-- There are conclusions iff the sets about each output can be joined. -/
theorem conclude_isOk_iff {names : List String} :
    (∃ es, conclude policy m (grouped fired) names = .ok es) ↔
      ∀ name ∈ names, ∃ u, FuzzySet.unionAll (setsAbout name fired) = .ok u := by
  induction names with
  | nil => exact ⟨fun _ => by simp, fun _ => ⟨[], rfl⟩⟩
  | cons name names ih =>
    rw [List.forall_mem_cons, ← ih]
    constructor
    · intro h
      obtain ⟨es, hes⟩ := h
      obtain ⟨u, others, hu, hothers, -⟩ := conclude_cons_eq_ok_iff.1 hes
      exact ⟨⟨u, hu⟩, others, hothers⟩
    · intro h
      obtain ⟨⟨u, hu⟩, others, hothers⟩ := h
      exact ⟨_, conclude_cons_eq_ok_iff.2 ⟨u, others, hu, hothers, rfl⟩⟩

/-- The outputs that there are conclusions about are those that some set is about, in order. -/
theorem map_fst_conclude {names : List String} {es : List (String × Conclusion)}
    (h : conclude policy m (grouped fired) names = .ok es) :
    es.map Prod.fst = names.filter fun name => !(setsAbout name fired).isEmpty := by
  induction names generalizing es with
  | nil =>
    cases h
    rfl
  | cons name names ih =>
    obtain ⟨u, others, hu, hothers, rfl⟩ := conclude_cons_eq_ok_iff.1 h
    have hnone := FuzzySet.unionAll_eq_none (setsAbout name fired)
    rw [hu, Except.ok.injEq] at hnone
    rw [List.filter_cons, List.map_append, ih hothers]
    cases u with
    | none =>
      rw [hnone.1 rfl]
      rfl
    | some s =>
      have hne : setsAbout name fired ≠ [] := fun e => nomatch hnone.2 e
      rw [if_pos (by simpa using hne)]
      rfl

/-- Every conclusion is drawn from the union of the sets about its output. -/
theorem mem_conclude {names : List String} {es : List (String × Conclusion)}
    (h : conclude policy m (grouped fired) names = .ok es) : ∀ e ∈ es,
      ∃ u, FuzzySet.unionAll (setsAbout e.1 fired) = .ok (some u) ∧ e.2 = drawn policy m e.1 u := by
  induction names generalizing es with
  | nil =>
    cases h
    simp
  | cons name names ih =>
    obtain ⟨u, others, hu, hothers, rfl⟩ := conclude_cons_eq_ok_iff.1 h
    intro e he
    rcases List.mem_append.1 he with he | he
    · cases u with
      | none => simp at he
      | some s =>
        obtain rfl : e = (name, drawn policy m name s) := by simpa using he
        exact ⟨s, hu, rfl⟩
    · exact ih hothers e he

end FuzzyControl.Evaluation
