import FuzzyControl.Proofs.Evaluation.Firing
import FuzzyControl.Proofs.Evaluation.Gathering

/-!
# What the evaluation of rules concludes

The evaluation fires the rules in their order, files what they conclude by output, and joins it in
the order of the outputs. This file says what comes out without any of these orders: the grid is
that of a consequent, and every place holds the greatest of the contributions of the rules.

* `Contributes`: what a rule contributes to one place of an output;
* `OneGrid`: the consequents about one output are on one grid;
* `Concludes`: the conclusion about one output;
* `evaluate_isOk_iff`, `names_evaluate`, `concludes_evaluate`: when there are conclusions, about
  which outputs, and which.
-/

namespace FuzzyControl.Evaluation

open Double Results

variable {lookup : Lookup} {inputs outputs : Registry Variable} {args : Arguments}

/-! ## 1. The rules about an output -/

/-- The rules about one output, in order. -/
def about (name : String) (rules : List Rule) : List Rule :=
  rules.filter fun r => r.consequent.subject == name

/-- What a rule contributes to one place of its output: the membership of its consequent there, or
its strength if that is less. -/
def Contributes (lookup : Lookup) (inputs outputs : Registry Variable) (args : Arguments) (i : Nat)
    (r : Rule) (m : Float) : Prop :=
  ∃ w s n, Strength lookup inputs args r w ∧ Names outputs r.consequent s ∧
    s.memberships[i]? = some n ∧ m = least w n

/-- The consequents of some rules are on one grid. -/
def OneGrid (outputs : Registry Variable) (rs : List Rule) : Prop :=
  ∀ r ∈ rs, ∀ r' ∈ rs, ∀ s s', Names outputs r.consequent s → Names outputs r'.consequent s' →
    List.Forall₂ (fun x y => (x == y) = true) s.grid s'.grid

/-- The conclusion about one output from the rules about it. -/
structure Concludes (settings : Settings) (m : Defuzzifier) (inputs outputs : Registry Variable)
    (args : Arguments) (rs : List Rule) (name : String) (c : Conclusion) : Prop where
  /-- The aggregated set has the name of the output. -/
  named : c.aggregated.name = name
  /-- It is on the grid of the first consequent. -/
  grid : ∃ r s, rs.head? = some r ∧ Names outputs r.consequent s ∧ c.aggregated.grid = s.grid
  /-- Every place holds what a walk through the contributions finds to be the greatest. -/
  walked : ∀ i n, c.aggregated.memberships[i]? = some n →
    ∃ ns, List.Forall₂ (Contributes settings.lookup inputs outputs args i) rs ns ∧
      greatest? ns = some n
  /-- It is the contribution of some rule. -/
  attained : ∀ i n, c.aggregated.memberships[i]? = some n →
    ∃ r ∈ rs, Contributes settings.lookup inputs outputs args i r n
  /-- No rule contributes more. -/
  highest : ∀ i n, c.aggregated.memberships[i]? = some n →
    ∀ r ∈ rs, ∀ n', Contributes settings.lookup inputs outputs args i r n' → n' ≤ n
  /-- The crisp value is read off the aggregated set. -/
  crisp : c.crisp = c.aggregated.crisp m settings.zeroHeight

theorem Contributes.unique {i : Nat} {r : Rule} {m m' : Float}
    (h : Contributes lookup inputs outputs args i r m)
    (h' : Contributes lookup inputs outputs args i r m') : m = m' := by
  obtain ⟨w, s, n, hw, hs, hn, rfl⟩ := h
  obtain ⟨w', s', n', hw', hs', hn', rfl⟩ := h'
  obtain rfl := hw.unique hw'
  obtain rfl := hs.unique hs'
  obtain rfl : n = n' := Option.some.inj (hn.symm.trans hn')
  rfl

theorem Contributes.isNaN {i : Nat} {r : Rule} {m : Float}
    (h : Contributes lookup inputs outputs args i r m) (hout : ValidSets outputs) :
    m.isNaN = false := by
  obtain ⟨w, s, n, -, hs, hn, rfl⟩ := h
  exact isNaN_least_right w ((hs.valid hout).inUnit n (List.mem_of_getElem? hn)).isNaN

/-! ## 2. The sets about an output -/

/-- The fired sets about an output are those of the rules about it. -/
theorem forall₂_setsAbout {rules : List Rule} {fired : List (String × FuzzySet)}
    (h : List.Forall₂ (fun r f => f.1 = r.consequent.subject ∧
      Fires lookup inputs outputs args r f.2) rules fired) (name : String) :
    List.Forall₂ (Fires lookup inputs outputs args) (about name rules) (setsAbout name fired) := by
  induction h with
  | nil => exact .nil
  | @cons r f rules fired hrf _ ih =>
    obtain ⟨hsubject, hfires⟩ := hrf
    by_cases hname : r.consequent.subject = name
    · have hr : about name (r :: rules) = r :: about name rules := by simp [about, hname]
      have hf : setsAbout name (f :: fired) = f.2 :: setsAbout name fired := by
        simp [setsAbout, hsubject, hname]
      rw [hr, hf]
      exact .cons hfires ih
    · have hr : about name (r :: rules) = about name rules := by simp [about, hname]
      have hf : setsAbout name (f :: fired) = setsAbout name fired := by
        simp [setsAbout, hsubject, hname]
      rw [hr, hf]
      exact ih

/-- What a rule concludes has the name and the grid of its consequent. -/
theorem Fires.consequent {r : Rule} {t : FuzzySet} (h : Fires lookup inputs outputs args r t) :
    ∃ s, Names outputs r.consequent s ∧ t.name = s.name ∧ t.grid = s.grid := by
  obtain ⟨w, s, -, hs, rfl⟩ := h
  exact ⟨s, hs, rfl, FuzzySet.grid_mapMembership _ s⟩

theorem Fires.contributes {r : Rule} {t : FuzzySet} {i : Nat} {m : Float}
    (h : Fires lookup inputs outputs args r t) (hm : t.memberships[i]? = some m) :
    Contributes lookup inputs outputs args i r m := by
  obtain ⟨w, s, hw, hs, rfl⟩ := h
  rw [FuzzySet.memberships_mapMembership, List.getElem?_map, Option.map_eq_some_iff] at hm
  obtain ⟨n, hn, rfl⟩ := hm
  exact ⟨w, s, n, hw, hs, hn, rfl⟩

/-- The fired sets can be joined iff the consequents are on one grid. -/
theorem unionAll_isOk_iff_oneGrid {rs : List Rule} {ts : List FuzzySet}
    (h : List.Forall₂ (Fires lookup inputs outputs args) rs ts) (hout : ValidSets outputs) :
    (∃ u, FuzzySet.unionAll ts = .ok u) ↔ OneGrid outputs rs := by
  have hnum : ∀ t ∈ ts, ∀ x ∈ t.grid, x.isNaN = false := by
    intro t ht
    obtain ⟨r, -, hr⟩ := exists_mem_left h t ht
    obtain ⟨s, hs, -, hgrid⟩ := hr.consequent
    rw [hgrid]
    exact (hs.valid hout).isNaN_grid
  rw [FuzzySet.unionAll_isOk_iff hnum]
  constructor
  · intro hall r hr r' hr' s s' hs hs'
    obtain ⟨t, ht, hrt⟩ := exists_mem_right h r hr
    obtain ⟨t', ht', hrt'⟩ := exists_mem_right h r' hr'
    obtain ⟨q, hq, -, hgrid⟩ := hrt.consequent
    obtain ⟨q', hq', -, hgrid'⟩ := hrt'.consequent
    obtain rfl := hs.unique hq
    obtain rfl := hs'.unique hq'
    rw [← hgrid, ← hgrid']
    exact (FuzzySet.sameGrid_iff t t').1 (hall t ht t' ht')
  · intro hone t ht t' ht'
    obtain ⟨r, hr, hrt⟩ := exists_mem_left h t ht
    obtain ⟨r', hr', hrt'⟩ := exists_mem_left h t' ht'
    obtain ⟨s, hs, -, hgrid⟩ := hrt.consequent
    obtain ⟨s', hs', -, hgrid'⟩ := hrt'.consequent
    rw [FuzzySet.sameGrid_iff, hgrid, hgrid']
    exact hone r hr r' hr' s s' hs hs'

/-- In a place that all fired sets have, their memberships are the contributions of the rules. -/
theorem forall₂_column {rs : List Rule} {ts : List FuzzySet}
    (h : List.Forall₂ (Fires lookup inputs outputs args) rs ts) {i : Nat}
    (hi : ∀ t ∈ ts, i < t.memberships.length) :
    List.Forall₂ (Contributes lookup inputs outputs args i) rs (FuzzySet.column ts i) := by
  induction h with
  | nil => exact .nil
  | @cons r t rs ts hrt _ ih =>
    have hit := hi t List.mem_cons_self
    have hcolumn : FuzzySet.column (t :: ts) i = t.memberships[i] :: FuzzySet.column ts i := by
      show t.memberships[i]?.toList ++ FuzzySet.column ts i = _
      rw [List.getElem?_eq_getElem hit]
      rfl
    rw [hcolumn]
    exact .cons (hrt.contributes (List.getElem?_eq_getElem hit))
      (ih fun t' ht' => hi t' (List.mem_cons_of_mem _ ht'))

/-! ## 3. Evaluation -/

variable {settings : Settings} {m : Defuzzifier} {rules : List Rule} {result : Conclusions}

theorem evaluate_eq_ok_iff : evaluate settings m inputs outputs rules args = .ok result ↔
    ∃ fired, List.Forall₂ (fun r f => f.1 = r.consequent.subject ∧
        Fires settings.lookup inputs outputs args r f.2) rules fired ∧
      conclude settings.zeroHeight m (grouped fired) outputs.names = .ok result.entries := by
  have hnodup : ∀ {fired es},
      conclude settings.zeroHeight m (grouped fired) outputs.names = .ok es →
        (es.map Prod.fst).Nodup := by
    intro fired es hes
    rw [map_fst_conclude hes]
    exact outputs.nodup.filter _
  simp only [evaluate_eq, bind_eq_ok_iff, pure_eq_ok_iff, mapM_fire_eq_ok_iff]
  constructor
  · intro h
    obtain ⟨fired, hfired, es, hes, rfl⟩ := h
    exact ⟨fired, hfired, by rwa [Registry.entries_ofList (hnodup hes)]⟩
  · intro h
    obtain ⟨fired, hfired, hes⟩ := h
    refine ⟨fired, hfired, result.entries, hes, Registry.ext ?_⟩
    exact (Registry.entries_ofList (hnodup hes)).symm

/-- **There are conclusions iff every rule fires and the consequents about each output are on one
grid.** -/
theorem evaluate_isOk_iff (hout : ValidSets outputs) :
    (∃ result, evaluate settings m inputs outputs rules args = .ok result) ↔
      (∀ r ∈ rules, ∃ t, Fires settings.lookup inputs outputs args r t) ∧
        ∀ name ∈ outputs.names, OneGrid outputs (about name rules) := by
  constructor
  · intro h
    obtain ⟨result, hresult⟩ := h
    obtain ⟨fired, hfired, hes⟩ := evaluate_eq_ok_iff.1 hresult
    refine ⟨fun r hr => ?_, fun name hname => ?_⟩
    · obtain ⟨f, -, -, hf⟩ := exists_mem_right hfired r hr
      exact ⟨f.2, hf⟩
    · rw [← unionAll_isOk_iff_oneGrid (forall₂_setsAbout hfired name) hout]
      exact conclude_isOk_iff.1 ⟨_, hes⟩ name hname
  · intro h
    obtain ⟨hfires, hgrid⟩ := h
    have hexists : ∀ r ∈ rules, ∃ f : String × FuzzySet, f.1 = r.consequent.subject ∧
        Fires settings.lookup inputs outputs args r f.2 := by
      intro r hr
      obtain ⟨t, ht⟩ := hfires r hr
      exact ⟨(r.consequent.subject, t), rfl, ht⟩
    obtain ⟨fired, hfired⟩ := exists_forall₂ hexists
    have hunions : ∀ name ∈ outputs.names,
        ∃ u, FuzzySet.unionAll (setsAbout name fired) = .ok u := by
      intro name hname
      rw [unionAll_isOk_iff_oneGrid (forall₂_setsAbout hfired name) hout]
      exact hgrid name hname
    obtain ⟨es, hes⟩ := conclude_isOk_iff.2 hunions
    have hnodup : (es.map Prod.fst).Nodup := by
      rw [map_fst_conclude hes]
      exact outputs.nodup.filter _
    exact ⟨⟨es, hnodup⟩, evaluate_eq_ok_iff.2 ⟨fired, hfired, hes⟩⟩

/-- **There are conclusions about the outputs that some rule is about**, in their own order. -/
theorem names_evaluate (h : evaluate settings m inputs outputs rules args = .ok result) :
    result.names = outputs.names.filter fun name =>
      rules.any fun r => r.consequent.subject == name := by
  obtain ⟨fired, hfired, hes⟩ := evaluate_eq_ok_iff.1 h
  show result.entries.map Prod.fst = _
  rw [map_fst_conclude hes]
  refine List.filter_congr fun name _ => ?_
  have hlen := (forall₂_setsAbout hfired name).length_eq
  rw [Bool.eq_iff_iff, List.any_eq_true, Bool.not_eq_true', List.isEmpty_eq_false_iff,
    ← List.length_pos_iff, ← hlen, List.length_pos_iff_exists_mem]
  simp only [about, List.mem_filter]

/-- **Every conclusion is the one that the rules about its output have.** -/
theorem concludes_evaluate (hout : ValidSets outputs)
    (h : evaluate settings m inputs outputs rules args = .ok result) :
    ∀ e ∈ result.entries,
      Concludes settings m inputs outputs args (about e.1 rules) e.1 e.2 := by
  obtain ⟨fired, hfired, hes⟩ := evaluate_eq_ok_iff.1 h
  intro e he
  obtain ⟨u, hu, hdrawn⟩ := mem_conclude hes e he
  have hsets := forall₂_setsAbout hfired e.1
  have hcolumn : ∀ i n, u.memberships[i]? = some n →
      List.Forall₂ (Contributes settings.lookup inputs outputs args i) (about e.1 rules)
        (FuzzySet.column (setsAbout e.1 fired) i) := by
    intro i n hn
    obtain ⟨hi, -⟩ := List.getElem?_eq_some_iff.1 hn
    exact forall₂_column hsets fun t ht => by rwa [FuzzySet.length_unionAll hu t ht]
  rw [hdrawn]
  refine ⟨rfl, ?_, fun i n hn => ?_, fun i n hn => ?_, fun i n hn r hr n' hn' => ?_, rfl⟩
  · obtain ⟨t, hhead, hgrid⟩ := FuzzySet.grid_unionAll hu
    obtain ⟨ts, hts⟩ : ∃ ts, setsAbout e.1 fired = t :: ts := List.head?_eq_some_iff.1 hhead
    rw [hts] at hsets
    obtain ⟨r, rs, hrt, -, hrs⟩ := List.forall₂_cons_right_iff.1 hsets
    obtain ⟨s, hs, -, hgrid'⟩ := hrt.consequent
    exact ⟨r, s, by rw [hrs]; rfl, hs, hgrid.trans hgrid'⟩
  · exact ⟨_, hcolumn i n hn, (FuzzySet.memberships_unionAll hu i).symm.trans hn⟩
  · have hmem := mem_of_greatest? ((FuzzySet.memberships_unionAll hu i).symm.trans hn)
    exact exists_mem_left (hcolumn i n hn) n hmem
  · obtain ⟨n'', hmem, hr''⟩ := exists_mem_right (hcolumn i n hn) r hr
    obtain rfl := hn'.unique hr''
    refine le_of_greatest? ?_ ((FuzzySet.memberships_unionAll hu i).symm.trans hn) n' hmem
    intro x hx
    obtain ⟨r', -, hr'⟩ := exists_mem_left (hcolumn i n hn) x hx
    exact hr'.isNaN hout

/-! ## 4. The reference -/

/-- There is one conclusion about an output. -/
theorem Concludes.unique {rs : List Rule} {name : String} {c c' : Conclusion}
    (h : Concludes settings m inputs outputs args rs name c)
    (h' : Concludes settings m inputs outputs args rs name c') : c = c' := by
  have hgrid : c.aggregated.grid = c'.aggregated.grid := by
    obtain ⟨r, s, hr, hs, hgrid⟩ := h.grid
    obtain ⟨r', s', hr', hs', hgrid'⟩ := h'.grid
    obtain rfl : r = r' := Option.some.inj (hr.symm.trans hr')
    obtain rfl := hs.unique hs'
    exact hgrid.trans hgrid'.symm
  have hlen : c.aggregated.memberships.length = c'.aggregated.memberships.length := by
    simpa using congrArg List.length hgrid
  have hmem : c.aggregated.memberships = c'.aggregated.memberships := by
    refine List.ext_getElem hlen fun i hi hi' => ?_
    obtain ⟨ns, hns, hn⟩ := h.walked i _ (List.getElem?_eq_getElem hi)
    obtain ⟨ns', hns', hn'⟩ := h'.walked i _ (List.getElem?_eq_getElem hi')
    have hunique : Relator.RightUnique (Contributes settings.lookup inputs outputs args i) :=
      fun _ _ _ hc hc' => hc.unique hc'
    obtain rfl : ns = ns' := List.right_unique_forall₂' hunique hns hns'
    exact Option.some.inj (hn.symm.trans hn')
  have haggregated : c.aggregated = c'.aggregated :=
    FuzzySet.eq_of_grid_of_memberships (h.named.trans h'.named.symm) hgrid hmem
  have hcrisp : c.crisp = c'.crisp := by rw [h.crisp, h'.crisp, haggregated]
  cases c
  cases c'
  cases haggregated
  cases hcrisp
  rfl

/-- Registries with the same names are compared entry by entry. -/
theorem forall₂_entries {α β : Type} {r : Registry α} {s : Registry β}
    {p : String × α → String × β → Prop} (hnames : r.names = s.names)
    (h : ∀ e ∈ r.entries, ∀ e' ∈ s.entries, e.1 = e'.1 → p e e') :
    List.Forall₂ p r.entries s.entries := by
  have hlen : r.entries.length = s.entries.length := by
    simpa [Registry.names] using congrArg List.length hnames
  refine List.forall₂_iff_get.2 ⟨hlen, fun i hi hi' => ?_⟩
  refine h _ (List.get_mem _ _) _ (List.get_mem _ _) ?_
  simpa [Registry.names, hi, hi'] using congrArg (·[i]?) hnames

/-- The conclusions are given by the outputs that they are about. -/
theorem eq_of_concludes {result' : Conclusions} (hnames : result.names = result'.names)
    (h : ∀ e ∈ result.entries, Concludes settings m inputs outputs args (about e.1 rules) e.1 e.2)
    (h' : ∀ e ∈ result'.entries,
      Concludes settings m inputs outputs args (about e.1 rules) e.1 e.2) :
    result = result' := by
  have hentries : List.Forall₂ Eq result.entries result'.entries := by
    refine forall₂_entries hnames fun e he e' he' hname => ?_
    have hc' := h' e' he'
    rw [← hname] at hc'
    exact Prod.ext hname ((h e he).unique hc')
  exact Registry.ext (List.forall₂_eq_eq_eq ▸ hentries)

/-- **The evaluation of rules is what it is defined to be.** There are conclusions iff all that the
rules name is there and has a membership, and the consequents about each output are on one grid.
They are about the outputs that some rule is about, in the order of the outputs, and each of them is
the greatest of the clipped consequents, place by place, with its crisp value. -/
theorem evaluate_correct (settings : Settings) (m : Defuzzifier) (inputs outputs : Registry Variable)
    (rules : List Rule) (args : Arguments) (hout : ValidSets outputs) :
    ((∃ result, evaluate settings m inputs outputs rules args = .ok result) ↔
      (∀ r ∈ rules, (∀ p ∈ r.antecedents, ∃ n, Holds settings.lookup inputs args p n) ∧
        ∃ s, Names outputs r.consequent s) ∧
      ∀ name ∈ outputs.names, OneGrid outputs (about name rules)) ∧
    ∀ result, evaluate settings m inputs outputs rules args = .ok result ↔
      (∀ r ∈ rules, (∀ p ∈ r.antecedents, ∃ n, Holds settings.lookup inputs args p n) ∧
        ∃ s, Names outputs r.consequent s) ∧
      (∀ name ∈ outputs.names, OneGrid outputs (about name rules)) ∧
      result.names = (outputs.names.filter fun name =>
        rules.any fun r => r.consequent.subject == name) ∧
      ∀ e ∈ result.entries,
        Concludes settings m inputs outputs args (about e.1 rules) e.1 e.2 := by
  have hok : (∃ result, evaluate settings m inputs outputs rules args = .ok result) ↔ _ :=
    evaluate_isOk_iff hout
  simp only [exists_fires_iff] at hok
  refine ⟨hok, fun result => ⟨fun h => ?_, fun h => ?_⟩⟩
  · obtain ⟨hfires, hgrid⟩ := hok.1 ⟨result, h⟩
    exact ⟨hfires, hgrid, names_evaluate h, concludes_evaluate hout h⟩
  · obtain ⟨hfires, hgrid, hnames, hconcludes⟩ := h
    obtain ⟨result', hresult'⟩ := hok.2 ⟨hfires, hgrid⟩
    have hnames' := hnames.trans (names_evaluate hresult').symm
    rw [eq_of_concludes hnames' hconcludes (concludes_evaluate hout hresult')]
    exact hresult'

/-! ## 5. Switches -/

/-- A variable that is either on or off. -/
def onOff (name : String) : Variable where
  name := name
  sets := ⟨[("on", ⟨"on", [⟨0, 0⟩, ⟨1, 1⟩]⟩)], by simp⟩
  filed := by simp [Registry.FiledBy]

/-- One such variable. -/
def switch (name : String) : Registry Variable := ⟨[(name, onOff name)], by simp⟩

theorem validSets_switch (name : String) : ValidSets (switch name) := by
  intro v hv s hs
  obtain rfl : v = onOff name := by simpa [switch, Registry.values] using hv
  obtain rfl : s = ⟨"on", [⟨0, 0⟩, ⟨1, 1⟩]⟩ := by simpa [onOff, Registry.values] using hs
  decide

/-- Two such variables. -/
def switches (other name : String) (h : other ≠ name) : Registry Variable :=
  ⟨[(other, onOff other), (name, onOff name)], by simpa using h⟩

theorem validSets_switches (other name : String) (h : other ≠ name) :
    ValidSets (switches other name h) := by
  intro v hv s hs
  rcases List.mem_cons.1 hv with rfl | hv
  · exact validSets_switch other _ List.mem_cons_self s hs
  · exact validSets_switch name v hv s hs

/-- The rule that turns the fan on with the heat. -/
def fanRule : Rule := ⟨.or, [⟨"heat", "on"⟩], ⟨"fan", "on"⟩⟩

/-- The heat is on. -/
def heatOn : Arguments := ⟨[("heat", 1)], by simp⟩

/-- There is no noise, and the heat is on. -/
def heatWithoutNoise : Arguments := ⟨[("noise", 0), ("heat", 1)], by simp⟩

/-- A variable with a set for off and one for on. -/
def offOrOn (name : String) : Variable where
  name := name
  sets := ⟨[("off", ⟨"off", [⟨0, 1⟩, ⟨1, 0⟩]⟩), ("on", ⟨"on", [⟨0, 0⟩, ⟨1, 1⟩]⟩)], by simp⟩
  filed := by simp [Registry.FiledBy]

/-- One such variable. -/
def twoWay (name : String) : Registry Variable := ⟨[(name, offOrOn name)], by simp⟩

theorem validSets_twoWay (name : String) : ValidSets (twoWay name) := by
  intro v hv s hs
  obtain rfl : v = offOrOn name := by simpa [twoWay, Registry.values] using hv
  obtain rfl | rfl : s = ⟨"off", [⟨0, 1⟩, ⟨1, 0⟩]⟩ ∨ s = ⟨"on", [⟨0, 0⟩, ⟨1, 1⟩]⟩ := by
    simpa [offOrOn, Registry.values] using hs
  · decide
  · decide

/-- The rule that turns the fan off with the noise. -/
def quietRule : Rule := ⟨.or, [⟨"noise", "on"⟩], ⟨"fan", "off"⟩⟩

/-- There is some noise, and the heat is on. -/
def heatWithNoise : Arguments := ⟨[("noise", 0.5), ("heat", 1)], by simp⟩

/-- The fan is on, and off as far as there is noise. -/
def partlyOff : Conclusions := ⟨[("fan", ⟨⟨"fan", [⟨0, 0.5⟩, ⟨1, 1⟩]⟩, 1 / 1.5⟩)], by simp⟩

theorem evaluate_partlyOff : evaluate { lookup := .interpolate } .centroid
    (switches "noise" "heat" (by decide)) (twoWay "fan") [quietRule, fanRule] heatWithNoise =
      .ok partlyOff := by
  have hgather : gather .interpolate (switches "noise" "heat" (by decide)) (twoWay "fan")
      heatWithNoise [quietRule, fanRule] =
        .ok ⟨[("fan", [⟨"off", [⟨0, 0.5⟩, ⟨1, 0⟩]⟩, ⟨"on", [⟨0, 0⟩, ⟨1, 1⟩]⟩])], by simp⟩ := rfl
  show (gather _ _ _ _ _ >>= _) = _
  rw [hgather]
  rfl

/-- Two rules about the fan, of which the noise clips one. -/
theorem evaluate_correct_switch : ValidSets (twoWay "fan") ∧
    Concludes { lookup := .interpolate } .centroid (switches "noise" "heat" (by decide))
      (twoWay "fan") heatWithNoise [quietRule, fanRule] "fan"
      ⟨⟨"fan", [⟨0, 0.5⟩, ⟨1, 1⟩]⟩, 1 / 1.5⟩ := by
  have hvalid := validSets_twoWay "fan"
  have h := ((evaluate_correct { lookup := .interpolate } .centroid
    (switches "noise" "heat" (by decide)) (twoWay "fan") [quietRule, fanRule] heatWithNoise
    hvalid).2 partlyOff).1 evaluate_partlyOff
  exact ⟨hvalid, h.2.2.2 _ List.mem_cons_self⟩

end FuzzyControl.Evaluation
