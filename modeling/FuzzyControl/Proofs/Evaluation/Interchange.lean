import FuzzyControl.Proofs.Evaluation.Reference
import FuzzyControl.Proofs.FuzzySet.Crisp

/-!
# Rules that can stand for each other

A place of a conclusion holds the greatest contribution, so a rule changes nothing where another one
with the same consequent contributes at least as much everywhere. Lists of rules that cover each
other in this way have the same conclusions, up to the sign of a zero.

* `Covered`: all that some rules contribute, others contribute as well;
* `Concludes.sharesGrid`, `Concludes.agrees_of_le`: when two conclusions are on one grid, and agree;
* `Interchangeable`: rules that fire together and cover each other; it is kept by `append`;
* `Interchangeable.evaluate`: evaluations of interchangeable rules agree.
-/

namespace FuzzyControl.Evaluation

open Double

variable {settings : Settings} {m : Defuzzifier} {lookup : Lookup}
  {inputs outputs : Registry Variable} {args : Arguments} {rules rules' rs rs' : List Rule}

/-! ## 1. Rules that cover others -/

/-- Every one of the rules has an output and is not stopped by its antecedents. -/
def AllFire (lookup : Lookup) (inputs outputs : Registry Variable) (args : Arguments)
    (rules : List Rule) : Prop :=
  ∀ r ∈ rules, ∃ t, Fires lookup inputs outputs args r t

/-- Every rule has one among some others that has the same consequent and contributes at least as
much to every place. -/
def Covered (lookup : Lookup) (inputs outputs : Registry Variable) (args : Arguments)
    (rules rules' : List Rule) : Prop :=
  ∀ r ∈ rules, ∃ r' ∈ rules', r'.consequent = r.consequent ∧
    ∀ i x, Contributes lookup inputs outputs args i r x →
      ∃ x', Contributes lookup inputs outputs args i r' x' ∧ x ≤ x'

/-- Rules that fire if others do, and then cover each other. -/
structure Interchangeable (lookup : Lookup) (inputs outputs : Registry Variable)
    (args : Arguments) (rules rules' : List Rule) : Prop where
  fire : AllFire lookup inputs outputs args rules ↔ AllFire lookup inputs outputs args rules'
  right : AllFire lookup inputs outputs args rules →
    Covered lookup inputs outputs args rules rules'
  left : AllFire lookup inputs outputs args rules →
    Covered lookup inputs outputs args rules' rules

theorem allFire_append : AllFire lookup inputs outputs args (rules ++ rs) ↔
    AllFire lookup inputs outputs args rules ∧ AllFire lookup inputs outputs args rs :=
  List.forall_mem_append

/-- Rules are covered by any rules that they are among. -/
theorem Covered.of_subset (hout : ValidSets outputs) (h : ∀ r ∈ rules, r ∈ rules') :
    Covered lookup inputs outputs args rules rules' := fun r hr =>
  ⟨r, h r hr, rfl, fun _ x hx => ⟨x, hx, le_refl (hx.isNaN hout)⟩⟩

theorem Covered.append (h : Covered lookup inputs outputs args rules rules')
    (hs : Covered lookup inputs outputs args rs rs') :
    Covered lookup inputs outputs args (rules ++ rs) (rules' ++ rs') := by
  intro r hr
  rcases List.mem_append.1 hr with hr | hr
  · obtain ⟨r', hr', hcover⟩ := h r hr
    exact ⟨r', List.mem_append_left _ hr', hcover⟩
  · obtain ⟨r', hr', hcover⟩ := hs r hr
    exact ⟨r', List.mem_append_right _ hr', hcover⟩

/-- Rules about an output are covered by the rules about it. -/
theorem Covered.about (h : Covered lookup inputs outputs args rules rules') (name : String) :
    Covered lookup inputs outputs args (about name rules) (about name rules') := by
  intro r hr
  obtain ⟨hmem, hsubject⟩ := List.mem_filter.1 hr
  obtain ⟨r', hr', hconsequent, hcover⟩ := h r hmem
  exact ⟨r', List.mem_filter.2 ⟨hr', by rwa [hconsequent]⟩, hconsequent, hcover⟩

/-- Rules with the same members are interchangeable. -/
theorem Interchangeable.of_mem_iff (hout : ValidSets outputs) (h : ∀ r, r ∈ rules ↔ r ∈ rules') :
    Interchangeable lookup inputs outputs args rules rules' where
  fire := forall_congr' fun r => imp_congr_left (h r)
  right _ := Covered.of_subset hout fun r => (h r).1
  left _ := Covered.of_subset hout fun r => (h r).2

/-- Interchangeable parts can be exchanged in a list. -/
theorem Interchangeable.append (h : Interchangeable lookup inputs outputs args rules rules')
    (hs : Interchangeable lookup inputs outputs args rs rs') :
    Interchangeable lookup inputs outputs args (rules ++ rs) (rules' ++ rs') where
  fire := by rw [allFire_append, allFire_append, h.fire, hs.fire]
  right hfire := (h.right (allFire_append.1 hfire).1).append (hs.right (allFire_append.1 hfire).2)
  left hfire := (h.left (allFire_append.1 hfire).1).append (hs.left (allFire_append.1 hfire).2)

theorem Interchangeable.symm (h : Interchangeable lookup inputs outputs args rules rules') :
    Interchangeable lookup inputs outputs args rules' rules where
  fire := h.fire.symm
  right hfire := h.left (h.fire.2 hfire)
  left hfire := h.right (h.fire.2 hfire)

/-! ## 2. What covering rules conclude -/

/-- Rules that cover others are on one grid only if those are. -/
theorem Covered.oneGrid (h : Covered lookup inputs outputs args rs rs')
    (hgrid : OneGrid outputs rs') : OneGrid outputs rs := by
  intro r₁ hr₁ r₂ hr₂ s₁ s₂ hs₁ hs₂
  obtain ⟨r₁', hr₁', hconsequent₁, -⟩ := h r₁ hr₁
  obtain ⟨r₂', hr₂', hconsequent₂, -⟩ := h r₂ hr₂
  rw [← hconsequent₁] at hs₁
  rw [← hconsequent₂] at hs₂
  exact hgrid r₁' hr₁' r₂' hr₂' s₁ s₂ hs₁ hs₂

/-- The greatest contribution of covered rules is at most that of the others. -/
theorem Covered.le {name : String} {c c' : Conclusion}
    (h : Covered settings.lookup inputs outputs args rs rs')
    (hc : Concludes settings m inputs outputs args rs name c)
    (hc' : Concludes settings m inputs outputs args rs' name c') {i : Nat} {x y : Float}
    (hx : c.aggregated.memberships[i]? = some x) (hy : c'.aggregated.memberships[i]? = some y) :
    x ≤ y := by
  obtain ⟨r, hr, hrx⟩ := hc.attained i x hx
  obtain ⟨r', hr', -, hcover⟩ := h r hr
  obtain ⟨x', hx', hle⟩ := hcover i x hrx
  exact le_trans hle (hc'.highest i y hy r' hr' x' hx')

/-- Conclusions of covered rules are on the grid of those of the others, where the consequents of
these are on one grid. -/
theorem Concludes.sharesGrid {name : String} {c c' : Conclusion}
    (h : Covered settings.lookup inputs outputs args rs rs') (hgrid : OneGrid outputs rs')
    (hc : Concludes settings m inputs outputs args rs name c)
    (hc' : Concludes settings m inputs outputs args rs' name c') :
    c.aggregated.SharesGrid c'.aggregated := by
  obtain ⟨r, s, hr, hs, hcs⟩ := hc.grid
  obtain ⟨r', s', hr', hs', hcs'⟩ := hc'.grid
  obtain ⟨r'', hr'', hconsequent, -⟩ := h r (List.mem_of_mem_head? hr)
  rw [FuzzySet.SharesGrid, hcs, hcs']
  exact hgrid r'' hr'' r' (List.mem_of_mem_head? hr') s s' (hconsequent ▸ hs) hs'

/-- The memberships of sets on one grid are compared place by place. -/
theorem forall₂_memberships {p : Float → Float → Prop} {s t : FuzzySet} (hgrid : s.SharesGrid t)
    (h : ∀ (i : Nat) (x y : Float), s.memberships[i]? = some x → t.memberships[i]? = some y →
      p x y) :
    List.Forall₂ p s.memberships t.memberships := by
  refine List.forall₂_iff_get.2 ⟨by simpa using hgrid.length_eq, fun i hi hi' => ?_⟩
  exact h i _ _ (List.getElem?_eq_getElem hi) (List.getElem?_eq_getElem hi')

/-- Conclusions on one grid agree if neither has a greater membership anywhere. -/
theorem Concludes.agrees_of_le {name : String} {c c' : Conclusion}
    (hgrid : c.aggregated.SharesGrid c'.aggregated)
    (hle : ∀ (i : Nat) (x y : Float), c.aggregated.memberships[i]? = some x →
      c'.aggregated.memberships[i]? = some y → x ≤ y ∧ y ≤ x)
    (hc : Concludes settings m inputs outputs args rs name c)
    (hc' : Concludes settings m inputs outputs args rs' name c') :
    c.aggregated.agrees c'.aggregated = true ∧ Alike c.crisp c'.crisp := by
  have hmemberships : List.Forall₂ (fun x y => (x == y) = true) c.aggregated.memberships
      c'.aggregated.memberships := by
    refine forall₂_memberships hgrid fun i x y hx hy => ?_
    obtain ⟨hxy, hyx⟩ := hle i x y hx hy
    exact beq_of_le_of_le hxy hyx
  refine ⟨(FuzzySet.agrees_iff _ _).2 ⟨hc.named.trans hc'.named.symm, hgrid, hmemberships⟩, ?_⟩
  rw [hc.crisp, hc'.crisp]
  exact FuzzySet.alike_crisp (List.Forall₂.imp (fun _ _ => Or.inl) hgrid)
    (hmemberships.imp fun _ _ => Or.inl) m settings.zeroHeight

/-- **Rules that cover each other conclude the same**, where consequents are on one grid. -/
theorem Concludes.agrees {name : String} {c c' : Conclusion}
    (h : Covered settings.lookup inputs outputs args rs rs')
    (h' : Covered settings.lookup inputs outputs args rs' rs) (hgrid : OneGrid outputs rs)
    (hc : Concludes settings m inputs outputs args rs name c)
    (hc' : Concludes settings m inputs outputs args rs' name c') :
    c.aggregated.agrees c'.aggregated = true ∧ Alike c.crisp c'.crisp := by
  have hshared : c.aggregated.SharesGrid c'.aggregated := (hc'.sharesGrid h' hgrid hc).symm
  exact hc.agrees_of_le hshared (fun i x y hx hy => ⟨h.le hc hc' hx hy, h'.le hc' hc hy hx⟩) hc'

/-! ## 3. Evaluations -/

/-- What has been evaluated was able to fire. -/
theorem allFire_of_evaluate {result : Conclusions} (hout : ValidSets outputs)
    (h : evaluate settings m inputs outputs rules args = .ok result) :
    AllFire settings.lookup inputs outputs args rules :=
  ((evaluate_isOk_iff hout).1 ⟨result, h⟩).1

/-- If there are conclusions from rules, there are conclusions from interchangeable ones. -/
theorem Interchangeable.evaluate_isOk (hout : ValidSets outputs)
    (h : Interchangeable settings.lookup inputs outputs args rules rules')
    (hok : ∃ result, evaluate settings m inputs outputs rules args = .ok result) :
    ∃ result, evaluate settings m inputs outputs rules' args = .ok result := by
  obtain ⟨hfire, hgrid⟩ := (evaluate_isOk_iff hout).1 hok
  refine (evaluate_isOk_iff hout).2 ⟨h.fire.1 hfire, fun name hname => ?_⟩
  exact ((h.left hfire).about name).oneGrid (hgrid name hname)

/-- An output that covered rules are about is one that the others are about. -/
theorem Covered.any (h : Covered lookup inputs outputs args rules rules') {name : String}
    (hany : (rules.any fun r => r.consequent.subject == name) = true) :
    (rules'.any fun r => r.consequent.subject == name) = true := by
  rw [List.any_eq_true] at hany ⊢
  obtain ⟨r, hr, hsubject⟩ := hany
  obtain ⟨r', hr', hconsequent, -⟩ := h r hr
  exact ⟨r', hr', by rwa [hconsequent]⟩

/-- **Evaluations of interchangeable rules agree.** The one succeeds iff the other does, they are
about the same outputs, and the aggregated sets and the crisp values are equal as doubles. -/
theorem Interchangeable.evaluate (hout : ValidSets outputs)
    (h : Interchangeable settings.lookup inputs outputs args rules rules') :
    ((∃ result, evaluate settings m inputs outputs rules args = .ok result) ↔
      ∃ result, evaluate settings m inputs outputs rules' args = .ok result) ∧
    ∀ result result', evaluate settings m inputs outputs rules args = .ok result →
      evaluate settings m inputs outputs rules' args = .ok result' →
      result.names = result'.names ∧
      List.Forall₂ (fun e e' => e.1 = e'.1 ∧ e.2.aggregated.agrees e'.2.aggregated = true ∧
        Alike e.2.crisp e'.2.crisp) result.entries result'.entries := by
  refine ⟨⟨h.evaluate_isOk hout, h.symm.evaluate_isOk hout⟩, fun result result' hr hr' => ?_⟩
  have hfire := allFire_of_evaluate hout hr
  have hright := h.right hfire
  have hleft := h.left hfire
  have hnames : result.names = result'.names := by
    rw [names_evaluate hr, names_evaluate hr']
    exact List.filter_congr fun name _ => Bool.eq_iff_iff.2 ⟨hright.any, hleft.any⟩
  refine ⟨hnames, forall₂_entries hnames fun e he e' he' hname => ?_⟩
  have hc := concludes_evaluate hout hr e he
  have hc' := concludes_evaluate hout hr' e' he'
  have hmem : e.1 ∈ outputs.names := by
    have hin : e.1 ∈ result.names := List.mem_map_of_mem he
    rw [names_evaluate hr] at hin
    exact List.mem_of_mem_filter hin
  have hgrid := ((evaluate_isOk_iff hout).1 ⟨result, hr⟩).2 e.1 hmem
  rw [← hname] at hc'
  exact ⟨hname, hc.agrees (hright.about e.1) (hleft.about e.1) hgrid hc'⟩

end FuzzyControl.Evaluation
