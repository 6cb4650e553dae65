import FuzzyControl.Proofs.Rule.RoundTrip

/-!
# What a sentence is read as

Reading goes by words: the names among them make the propositions in pairs, and of the other words
only `AND` and `OR` matter, wherever they stand. This file says what a list of words is read as,
without the walk through it, and that reading does just that.

* `Spells`, `namesAmong`: the words of a text, and those that are no keywords;
* `Rule.Reads`: what a list of words is read as, a rule or a fault, in order of precedence;
* `Rule.ofTokens_eq_iff`: it is what the walk through the words gives, and so it is one thing for
  every list of words;
* `Clauses`, `Phrased`: the sentences of the grammar that use one connective; `Phrased.reads`;
* `Rule.ofText_reads`: what every text is read as.
-/

namespace FuzzyControl

/-! ## 1. The words of a sentence -/

/-- The words that are no names. -/
def keywords : List String := ["IF", "IS", "THEN", "AND", "OR"]

/-- The keywords that say nothing. -/
def fillers : List String := ["IF", "IS", "THEN"]

/-- The words of a text are its maximal runs of characters that are not blank. -/
def Spells (s : String) (ws : List String) : Prop := Text.Runs s.toList (ws.map String.toList)

/-- The names among some words, in order. -/
def namesAmong (ws : List String) : List String := ws.filter (· ∉ keywords)

theorem Spells.unique {s : String} {ws ws' : List String} (h : Spells s ws) (h' : Spells s ws') :
    ws = ws' := by
  have hmap : ws.map String.toList = ws'.map String.toList := h.words_eq.symm.trans h'.words_eq
  exact List.map_injective_iff.2 (fun _ _ => String.toList_injective) hmap

theorem exists_spells (s : String) : ∃ ws, Spells s ws := by
  refine ⟨(Text.words s.toList).map String.ofList, ?_⟩
  unfold Spells
  have hid : String.toList ∘ String.ofList = id := funext fun _ => String.toList_ofList
  rw [List.map_map, hid, List.map_id]
  exact Text.runs_words s.toList

/-- The tokens of a text are those of its words. -/
theorem Spells.ofText_eq {s : String} {ws : List String} (h : Spells s ws) :
    Token.ofText s = ws.map Token.ofWord := by
  unfold Token.ofText
  rw [h.words_eq, List.map_map]
  exact List.map_congr_left fun w _ => congrArg Token.ofWord String.ofList_toList

theorem Keyword.ofWord?_eq_some_iff (w : String) (k : Keyword) :
    ofWord? w = some k ↔ w = k.word := by
  refine ⟨fun h => ?_, fun h => h ▸ ofWord?_word k⟩
  unfold ofWord? at h
  split_ifs at h with h1 h2 h3 h4 h5 <;> cases h <;> assumption

theorem Keyword.ofWord?_eq_none_iff (w : String) : ofWord? w = none ↔ w ∉ keywords := by
  unfold ofWord? keywords
  split_ifs <;> simp_all

namespace Token

theorem keyword_mem_iff (ws : List String) (k : Keyword) :
    .keyword k ∈ ws.map ofWord ↔ k.word ∈ ws := by
  have hword : ∀ w, ofWord w = .keyword k ↔ w = k.word := by
    intro w
    rw [← Keyword.ofWord?_eq_some_iff, ofWord]
    cases Keyword.ofWord? w <;> simp
  simp [hword]

theorem names_map_ofWord (ws : List String) : names (ws.map ofWord) = namesAmong ws := by
  induction ws with
  | nil => rfl
  | cons w ws ih =>
    unfold namesAmong names at *
    by_cases hw : w ∈ keywords
    · obtain ⟨k, hk⟩ := Option.ne_none_iff_exists'.1
        (mt (Keyword.ofWord?_eq_none_iff w).1 (not_not.2 hw))
      have hkeyword : ofWord w = .keyword k := by rw [ofWord, hk]
      rw [List.map_cons, hkeyword, List.filter_cons_of_neg (by simpa using hw), ← ih]
      rfl
    · have hname : ofWord w = .name w := by rw [ofWord, (Keyword.ofWord?_eq_none_iff w).2 hw]
      rw [List.map_cons, hname, List.filter_cons_of_pos (by simpa using hw), ← ih]
      rfl

end Token

/-! ## 2. What words are read as -/

/-- Names that come in pairs are those of the propositions they make. -/
theorem Proposition.allNames_ofNames {ns : List String} (h : Even ns.length) :
    allNames (ofNames ns) = ns := by
  fun_induction ofNames ns with
  | case1 subject set rest ih =>
    have hrest : Even rest.length := by
      rw [List.length_cons, List.length_cons] at h
      simpa [Nat.even_add_one] using h
    exact congrArg (fun ns => subject :: set :: ns) (ih hrest)
  | case2 ns hshort =>
    rcases ns with _ | ⟨m, _ | ⟨n, rest⟩⟩
    · rfl
    · exact absurd h (by simp)
    · exact absurd rfl (hshort m n rest)

/-- What a list of words is read as. Both connectives are refused first, then names that do not come
in pairs, and then a conclusion from nothing. Otherwise the propositions are those whose names are
the names among the words, and the last is the consequent. -/
inductive Rule.Reads (ws : List String) : Except Fault Rule → Prop where
  | mixed (hand : "AND" ∈ ws) (hor : "OR" ∈ ws) :
      Reads ws (.error (.malformedRule .mixedConnectives))
  | unpaired (hone : ¬ ("AND" ∈ ws ∧ "OR" ∈ ws))
      (hnames : (namesAmong ws).length = 0 ∨ Odd (namesAmong ws).length) :
      Reads ws (.error (.malformedRule (.unpaired (namesAmong ws).length)))
  | unfounded (hone : ¬ ("AND" ∈ ws ∧ "OR" ∈ ws)) (hnames : (namesAmong ws).length = 2) :
      Reads ws (.error .noAntecedents)
  | rule (hone : ¬ ("AND" ∈ ws ∧ "OR" ∈ ws)) {c : Connective} {ps : List Proposition}
      {p : Proposition} (hne : ps ≠ [])
      (hnames : namesAmong ws = Proposition.allNames (ps ++ [p]))
      (hc : c = .and ↔ "AND" ∈ ws ∧ 2 ≤ ps.length) : Reads ws (.ok ⟨c, ps, p⟩)

namespace Rule

/-- Every list of words is read as something. -/
theorem exists_reads (ws : List String) : ∃ result, Reads ws result := by
  by_cases hmixed : "AND" ∈ ws ∧ "OR" ∈ ws
  · exact ⟨_, .mixed hmixed.1 hmixed.2⟩
  by_cases hunpaired : (namesAmong ws).length = 0 ∨ Odd (namesAmong ws).length
  · exact ⟨_, .unpaired hmixed hunpaired⟩
  by_cases htwo : (namesAmong ws).length = 2
  · exact ⟨_, .unfounded hmixed htwo⟩
  rw [not_or, Nat.not_odd_iff_even] at hunpaired
  have hnames := Proposition.allNames_ofNames hunpaired.2
  have hlen := Proposition.length_allNames (Proposition.ofNames (namesAmong ws))
  rw [hnames] at hlen
  have hsome : Proposition.ofNames (namesAmong ws) ≠ [] := by
    intro hnil
    rw [hnil] at hlen
    exact hunpaired.1 hlen
  -- there are at least two propositions, of which the last one is the consequent
  obtain ⟨ps, p, hps⟩ := (List.eq_nil_or_concat' _).resolve_left hsome
  rw [hps] at hnames
  have hne : ps ≠ [] := by
    rintro rfl
    rw [hps] at hlen
    exact htwo hlen
  by_cases hand : "AND" ∈ ws ∧ 2 ≤ ps.length
  · exact ⟨_, .rule (c := .and) hmixed hne hnames.symm (iff_of_true rfl hand)⟩
  · exact ⟨_, .rule (c := .or) hmixed hne hnames.symm (iff_of_false nofun hand)⟩

/-- Reading the tokens of some words gives what the words are read as. -/
theorem Reads.ofTokens_eq {ws : List String} {result : Except Fault Rule} (h : Reads ws result) :
    ofTokens (ws.map Token.ofWord) = result := by
  have hand := Token.keyword_mem_iff ws .conjunction
  have hor := Token.keyword_mem_iff ws .disjunction
  unfold ofTokens
  simp only [hand, hor, Token.names_map_ofWord, Keyword.word]
  cases h with
  | mixed hand hor => rw [if_pos ⟨hand, hor⟩]
  | unpaired hone hnames =>
    have hnames' : namesAmong ws = [] ∨ (namesAmong ws).length % 2 ≠ 0 := by
      rw [← List.length_eq_zero_iff]
      exact hnames.imp_right fun hodd => Nat.odd_iff.1 hodd ▸ one_ne_zero
    rw [if_neg hone, if_pos hnames']
  | unfounded hone hnames =>
    have hnames' : ¬ (namesAmong ws = [] ∨ (namesAmong ws).length % 2 ≠ 0) := by
      rw [← List.length_eq_zero_iff]
      omega
    obtain ⟨subject, set, hpair⟩ := List.length_eq_two.1 hnames
    rw [if_neg hone, if_neg hnames', hpair]
    rfl
  | @rule hone c ps p hne hnames hc =>
    have hlen := Proposition.length_allNames (ps ++ [p])
    have hnames' : ¬ (Proposition.allNames (ps ++ [p]) = [] ∨
        (Proposition.allNames (ps ++ [p])).length % 2 ≠ 0) := by
      rw [← List.length_eq_zero_iff, hlen, List.length_append, List.length_singleton]
      omega
    have hpos := List.length_pos_iff.2 hne
    rw [if_neg hone, hnames, if_neg hnames', Proposition.ofNames_allNames]
    unfold ofPropositions Rule.of
    rw [List.getLast?_concat, List.dropLast_concat]
    simp only [hne, if_false]
    congr 2
    split_ifs with hsingle hand
    · cases c with
      | and => exact absurd (hc.1 rfl).2 (by omega)
      | or => rfl
    · exact (hc.2 ⟨hand, by omega⟩).symm
    · cases c with
      | and => exact absurd (hc.1 rfl).1 hand
      | or => rfl

/-- **A list of words is read as one thing**, which is what reading its tokens gives. -/
theorem ofTokens_eq_iff (ws : List String) (result : Except Fault Rule) :
    ofTokens (ws.map Token.ofWord) = result ↔ Reads ws result := by
  refine ⟨fun h => ?_, Reads.ofTokens_eq⟩
  obtain ⟨result', h'⟩ := exists_reads ws
  rwa [← h, h'.ofTokens_eq]

/-- Sentences that differ in nothing but blanks and the words that say nothing are read alike. -/
theorem Reads.of_fillers {ws ws' : List String} {result : Except Fault Rule} (h : Reads ws result)
    (hws : ws.filter (· ∉ fillers) = ws'.filter (· ∉ fillers)) : Reads ws' result := by
  have hmem : ∀ w, w ∉ fillers → (w ∈ ws ↔ w ∈ ws') := by
    intro w hw
    have := congrArg (w ∈ ·) hws
    simpa [hw] using this
  have hnames : namesAmong ws = namesAmong ws' := by
    have hsub : ∀ w : String, w ∉ keywords → w ∉ fillers := by
      intro w hw hmem
      exact hw ((by decide : fillers ⊆ keywords) hmem)
    have hfilter : ∀ us : List String,
        namesAmong us = namesAmong (us.filter (· ∉ fillers)) := by
      intro us
      unfold namesAmong
      rw [List.filter_filter]
      refine List.filter_congr fun w _ => ?_
      by_cases hw : w ∈ keywords
      · simp [hw]
      · simp [hw, hsub w hw]
    rw [hfilter ws, hws, ← hfilter ws']
  have hand := hmem "AND" (by decide)
  have hor := hmem "OR" (by decide)
  cases h with
  | mixed h h' => exact .mixed (hand.1 h) (hor.1 h')
  | unpaired hone h =>
    rw [hand, hor] at hone
    rw [hnames] at h ⊢
    exact .unpaired hone h
  | unfounded hone h =>
    rw [hand, hor] at hone
    exact .unfounded hone (hnames ▸ h)
  | rule hone hne h hc =>
    rw [hand, hor] at hone
    rw [hand] at hc
    exact .rule hone hne (hnames ▸ h) hc

end Rule

/-! ## 3. Sentences of the grammar -/

/-- The clause of a proposition, word by word. -/
def Proposition.clause (p : Proposition) : List String := [p.subject, "IS", p.set]

/-- Clauses with a connective between neighbours. -/
inductive Clauses (c : Connective) : List Proposition → List String → Prop where
  | one (p : Proposition) : Clauses c [p] p.clause
  | more (p : Proposition) {ps : List Proposition} {ws : List String} (h : Clauses c ps ws) :
      Clauses c (p :: ps) (p.clause ++ c.keyword :: ws)

/-- The sentences of the grammar with one connective: antecedents, and the consequent. The names are
no keywords. -/
inductive Phrased (c : Connective) (ps : List Proposition) (p : Proposition) : List String → Prop
  | sentence {ws : List String} (hclauses : Clauses c ps ws)
      (hnames : ∀ n ∈ Proposition.allNames ps, n ∉ keywords) (hp : ∀ n ∈ p.names, n ∉ keywords) :
      Phrased c ps p ("IF" :: ws ++ "THEN" :: p.clause)

theorem Connective.keyword_mem (c : Connective) : c.keyword ∈ keywords := by
  cases c <;> decide

theorem Proposition.keyword_not_mem_clause {p : Proposition} (h : ∀ n ∈ p.names, n ∉ keywords)
    (c : Connective) : c.keyword ∉ p.clause := by
  have his : c.keyword ≠ "IS" := by cases c <;> decide
  intro hmem
  simp only [clause, List.mem_cons, his, List.not_mem_nil, or_false, false_or] at hmem
  rcases hmem with hmem | hmem
  · exact h _ (hmem ▸ List.mem_cons_self) c.keyword_mem
  · exact h _ (hmem ▸ List.mem_cons_of_mem _ List.mem_cons_self) c.keyword_mem

theorem namesAmong_append (us vs : List String) :
    namesAmong (us ++ vs) = namesAmong us ++ namesAmong vs :=
  List.filter_append us vs

theorem namesAmong_clause {p : Proposition} (h : ∀ n ∈ p.names, n ∉ keywords) :
    namesAmong p.clause = p.names := by
  have hsubject : p.subject ∉ keywords := h _ List.mem_cons_self
  have hset : p.set ∉ keywords := h _ (List.mem_cons_of_mem _ List.mem_cons_self)
  have his : "IS" ∈ keywords := by decide
  simp [namesAmong, Proposition.clause, Proposition.names, hsubject, hset, his]

section Clauses

variable {c d : Connective} {ps : List Proposition} {ws : List String}

theorem Clauses.ne_nil (h : Clauses c ps ws) : ps ≠ [] := by
  cases h <;> exact List.cons_ne_nil _ _

/-- The names among clauses are those of their propositions. -/
theorem Clauses.namesAmong_eq (h : Clauses c ps ws)
    (hnames : ∀ n ∈ Proposition.allNames ps, n ∉ keywords) :
    namesAmong ws = Proposition.allNames ps := by
  induction h with
  | one p =>
    have hall : Proposition.allNames [p] = p.names := List.append_nil p.names
    rw [hall] at hnames ⊢
    exact namesAmong_clause hnames
  | @more p ps ws h ih =>
    have hsplit : Proposition.allNames (p :: ps) = p.names ++ Proposition.allNames ps := rfl
    rw [hsplit, List.forall_mem_append] at hnames
    have hkeyword : namesAmong (c.keyword :: ws) = namesAmong ws :=
      List.filter_cons_of_neg (by simpa using c.keyword_mem)
    rw [namesAmong_append, namesAmong_clause hnames.1, hkeyword, ih hnames.2, hsplit]

/-- Of the connectives, clauses have theirs, if there are at least two. -/
theorem Clauses.keyword_mem_iff (h : Clauses c ps ws)
    (hnames : ∀ n ∈ Proposition.allNames ps, n ∉ keywords) :
    d.keyword ∈ ws ↔ d = c ∧ 2 ≤ ps.length := by
  have hinj : d.keyword = c.keyword ↔ d = c := by cases c <;> cases d <;> decide
  induction h with
  | one p =>
    have hp : ∀ n ∈ p.names, n ∉ keywords := fun n hn => hnames n (List.mem_append_left _ hn)
    exact iff_of_false (Proposition.keyword_not_mem_clause hp d) (by simp)
  | @more p ps ws h ih =>
    have hsplit : Proposition.allNames (p :: ps) = p.names ++ Proposition.allNames ps := rfl
    rw [hsplit, List.forall_mem_append] at hnames
    have hlen := List.length_pos_iff.2 h.ne_nil
    have hrest := ih hnames.2
    rw [List.mem_append, List.mem_cons, hinj, List.length_cons]
    constructor
    · rintro (hmem | rfl | hmem)
      · exact absurd hmem (Proposition.keyword_not_mem_clause hnames.1 d)
      · exact ⟨rfl, by omega⟩
      · exact ⟨(hrest.1 hmem).1, by omega⟩
    · exact fun hdc => .inr (.inl hdc.1)

end Clauses

namespace Phrased

variable {c d : Connective} {ps : List Proposition} {p : Proposition} {ws : List String}

theorem ne_nil (h : Phrased c ps p ws) : ps ≠ [] := by
  cases h with
  | sentence hclauses => exact hclauses.ne_nil

/-- The names among the words of a sentence are those of its propositions. -/
theorem namesAmong_eq (h : Phrased c ps p ws) :
    namesAmong ws = Proposition.allNames (ps ++ [p]) := by
  cases h with
  | @sentence us hclauses hnames hp =>
    have hif : namesAmong ("IF" :: us) = namesAmong us := List.filter_cons_of_neg (by decide)
    have hthen : namesAmong ("THEN" :: p.clause) = namesAmong p.clause :=
      List.filter_cons_of_neg (by decide)
    rw [namesAmong_append, hif, hthen, hclauses.namesAmong_eq hnames, namesAmong_clause hp]
    simp [Proposition.allNames]

/-- Of the connectives, a sentence has its own, if there are at least two antecedents. -/
theorem keyword_mem_iff (h : Phrased c ps p ws) : d.keyword ∈ ws ↔ d = c ∧ 2 ≤ ps.length := by
  cases h with
  | sentence hclauses hnames hp =>
    have hif : d.keyword ≠ "IF" := by cases d <;> decide
    have hthen : d.keyword ≠ "THEN" := by cases d <;> decide
    rw [← hclauses.keyword_mem_iff hnames]
    simp [hif, hthen, Proposition.keyword_not_mem_clause hp d]

/-- **A sentence of the grammar is read as the rule that it spells.** -/
theorem reads (h : Phrased c ps p ws) : Rule.Reads ws (.ok (Rule.of c ps p)) := by
  have hand : "AND" ∈ ws ↔ .and = c ∧ 2 ≤ ps.length := h.keyword_mem_iff (d := .and)
  have hor : "OR" ∈ ws ↔ .or = c ∧ 2 ≤ ps.length := h.keyword_mem_iff (d := .or)
  have hone : ¬ ("AND" ∈ ws ∧ "OR" ∈ ws) := by
    rw [hand, hor]
    intro hboth
    exact absurd (hboth.1.1.trans hboth.2.1.symm) (by decide)
  have hpos := List.length_pos_iff.2 h.ne_nil
  refine .rule hone h.ne_nil h.namesAmong_eq ?_
  rw [hand, and_assoc, and_self]
  split_ifs with hsingle
  · exact iff_of_false nofun fun hc => by omega
  · exact ⟨fun hc => ⟨hc.symm, by omega⟩, fun hc => hc.1.symm⟩

end Phrased

/-! ## 4. Reading texts -/

namespace Rule

/-- **Every text is read as its words say.** The words are the maximal runs of the text; what they are
read as does not depend on the blanks between them and on the words that say nothing; and a sentence
of the grammar is read as the rule that it spells. -/
theorem ofText_reads (s : String) : ∃ ws, (∀ us, Spells s us ↔ us = ws) ∧
    (∀ result, ofText s = result ↔ Reads ws result) ∧
    ofText s ≠ .error .noConsequent ∧
    (∀ c ps p, Phrased c ps p ws → ofText s = .ok (Rule.of c ps p)) ∧
    ∀ t us, Spells t us → us.filter (· ∉ fillers) = ws.filter (· ∉ fillers) →
      ofText t = ofText s := by
  obtain ⟨ws, hws⟩ := exists_spells s
  have hreads : ∀ {t : String} {us : List String}, Spells t us → ∀ result,
      ofText t = result ↔ Reads us result := by
    intro t us hus result
    unfold ofText
    rw [hus.ofText_eq]
    exact ofTokens_eq_iff us result
  refine ⟨ws, fun us => ⟨fun hus => hus.unique hws, fun h => h ▸ hws⟩, hreads hws, ?_, ?_, ?_⟩
  · intro h
    cases (hreads hws _).1 h
  · exact fun c ps p hphrased => (hreads hws _).2 hphrased.reads
  · intro t us hus hfillers
    exact (hreads hus _).2 (((hreads hws _).1 rfl).of_fillers hfillers.symm)

/-- A sentence, and one with the same names that has lost its keywords. -/
theorem ofText_reads_island :
    ofText "IF  ISLAND IS\tBig THEN Tip IS Good" = .ok ⟨.or, [⟨"ISLAND", "Big"⟩], ⟨"Tip", "Good"⟩⟩ ∧
      ofText "ISLAND Big\nTip Good THEN " = ofText "IF  ISLAND IS\tBig THEN Tip IS Good" := by
  obtain ⟨ws, hws, -, -, hphrased, hfillers⟩ := ofText_reads "IF  ISLAND IS\tBig THEN Tip IS Good"
  have hspells : Spells "IF  ISLAND IS\tBig THEN Tip IS Good"
      ["IF", "ISLAND", "IS", "Big", "THEN", "Tip", "IS", "Good"] :=
    (Text.words_eq_iff _ _).1 (by decide)
  obtain rfl := (hws _).1 hspells
  refine ⟨hphrased .and [⟨"ISLAND", "Big"⟩] ⟨"Tip", "Good"⟩ ?_, ?_⟩
  · exact .sentence (.one ⟨"ISLAND", "Big"⟩) (by decide) (by decide)
  · exact hfillers _ ["ISLAND", "Big", "Tip", "Good", "THEN"]
      ((Text.words_eq_iff _ _).1 (by decide)) (by decide)

end Rule

end FuzzyControl
