import FuzzyControl.Proofs.Text.Words
import FuzzyControl.Proofs.Json.Reading

/-!
# Rules and their sentences

The sentence of a rule reads back as the rule, and so does its outline. What makes this work is that
every name of a rule is one word and no keyword, which both ways of making a rule establish: the
words of a sentence because they are words, the parts of an outline because they are checked.

* `IsName` and `Rule.WellFormed`: what every rule satisfies;
* `Token.ofText_text`: the tokens of the sentence of a rule;
* `Rule.Obtainable`: a rule from a sentence, an outline or JSON, and
  `Rule.Obtainable.wellFormed`;
* `Rule.roundTrip`: a rule is read back from its sentence and from its outline.
-/

namespace FuzzyControl

open Json Results

/-! ## 1. Names -/

/-- One word, and no keyword. -/
structure IsName (w : String) : Prop where
  ne_nil : w.toList ≠ []
  not_blank : ∀ c ∈ w.toList, Text.isBlank c = false
  no_keyword : Keyword.ofWord? w = none

/-- The check of a name finds what is none. -/
theorem Outline.nameFlaw?_eq_none_iff (w : String) : nameFlaw? w = none ↔ IsName w := by
  have hblank : w.toList.any Text.isBlank = true ↔
      ¬ ∀ c ∈ w.toList, Text.isBlank c = false := by
    simp
  unfold nameFlaw?
  constructor
  · intro h
    split at h
    · cases h
    · rename_i hnil
      split at h
      · cases h
      · rename_i hany
        split at h
        · cases h
        · rename_i hkeyword
          exact ⟨hnil, not_not.1 (mt hblank.2 hany), by simpa using hkeyword⟩
  · intro h
    rw [if_neg h.ne_nil, if_neg fun hany => hblank.1 hany h.not_blank, h.no_keyword]
    rfl

/-- The names of a proposition. -/
def Proposition.names (p : Proposition) : List String := [p.subject, p.set]

/-- Both names of a proposition are names. -/
def Proposition.WellFormed (p : Proposition) : Prop := ∀ w ∈ p.names, IsName w

theorem Outline.flaw?_eq_none_iff (ps : List Proposition) :
    flaw? ps = none ↔ ∀ p ∈ ps, p.WellFormed := by
  unfold flaw?
  rw [List.findSome?_eq_none_iff, List.forall_mem_flatMap]
  simp only [nameFlaw?_eq_none_iff]
  rfl

/-- What every rule satisfies. -/
structure Rule.WellFormed (r : Rule) : Prop where
  /-- There is an antecedent. -/
  antecedents : r.antecedents ≠ []
  /-- A single one has nothing to join. -/
  single : r.antecedents.length = 1 → r.connective = .or
  /-- All names are names. -/
  names : ∀ p ∈ r.propositions, p.WellFormed

theorem Rule.wellFormed_of {c : Connective} {ps : List Proposition} {p : Proposition}
    (hps : ps ≠ []) (hnames : ∀ q ∈ ps ++ [p], q.WellFormed) : (Rule.of c ps p).WellFormed where
  antecedents := hps
  single := fun h => if_pos h
  names := hnames

/-- A rule is made of its own parts. -/
theorem Rule.WellFormed.of_eq {r : Rule} (h : r.WellFormed) :
    Rule.of r.connective r.antecedents r.consequent = r := by
  obtain ⟨c, ps, p⟩ := r
  unfold Rule.of
  congr 1
  by_cases hlen : ps.length = 1
  · rw [if_pos hlen]
    exact (h.single hlen).symm
  · rw [if_neg hlen]

/-! ## 2. The tokens of a sentence -/

namespace Token

theorem ofText_append_blank (a b : String) : ofText (a ++ " " ++ b) = ofText a ++ ofText b := by
  have hlist : (a ++ " " ++ b).toList = a.toList ++ ' ' :: b.toList := by
    rw [String.toList_append, String.toList_append, List.append_assoc]
    rfl
  have hblank : Text.isBlank ' ' = true := by decide
  unfold ofText
  rw [hlist, Text.words_append_blank _ _ hblank, List.map_append]

theorem ofText_word {w : String} (hne : w.toList ≠ [])
    (h : ∀ c ∈ w.toList, Text.isBlank c = false) : ofText w = [ofWord w] := by
  unfold ofText
  rw [Text.words_of_not_blank hne h, List.map_singleton, String.ofList_toList]

theorem ofText_name {w : String} (h : IsName w) : ofText w = [.name w] := by
  rw [ofText_word h.ne_nil h.not_blank, ofWord, h.no_keyword]

theorem ofText_keyword (k : Keyword) : ofText k.word = [.keyword k] := by
  cases k <;> decide

end Token

/-- The word of a connective as a keyword. -/
def Connective.asKeyword : Connective → Keyword
  | .and => .conjunction
  | .or => .disjunction

theorem Connective.word_asKeyword (c : Connective) : c.asKeyword.word = c.keyword := by
  cases c <;> rfl

/-- The tokens of a clause. -/
def Proposition.tokens (p : Proposition) : List Token :=
  [.name p.subject, .keyword .copula, .name p.set]

theorem Token.ofText_proposition {p : Proposition} (h : p.WellFormed) :
    ofText p.text = p.tokens := by
  have htext : p.text = p.subject ++ " " ++ (Keyword.copula.word ++ " " ++ p.set) := by
    have hcopula : " IS " = " " ++ (Keyword.copula.word ++ " ") := by decide
    unfold Proposition.text
    rw [hcopula]
    simp only [String.append_assoc]
  rw [htext, ofText_append_blank, ofText_append_blank, ofText_keyword,
    ofText_name (h p.subject List.mem_cons_self),
    ofText_name (h p.set (List.mem_cons_of_mem _ List.mem_cons_self))]
  rfl

/-- The tokens of clauses with a connective between neighbours. -/
def Connective.tokens (c : Connective) : List Proposition → List Token
  | [] => []
  | [p] => p.tokens
  | p :: q :: rest => p.tokens ++ .keyword c.asKeyword :: c.tokens (q :: rest)

theorem Token.ofText_joined (c : Connective) {ps : List Proposition}
    (h : ∀ p ∈ ps, p.WellFormed) : ofText (Rule.joined c.keyword ps) = c.tokens ps := by
  fun_induction Connective.tokens c ps with
  | case1 =>
    show ofText "" = []
    decide
  | case2 p => exact ofText_proposition (h p List.mem_cons_self)
  | case3 p q rest ih =>
    have htext : Rule.joined c.keyword (p :: q :: rest) =
        p.text ++ " " ++ (c.asKeyword.word ++ " " ++ Rule.joined c.keyword (q :: rest)) := by
      rw [c.word_asKeyword]
      simp only [Rule.joined, String.append_assoc]
    rw [htext, ofText_append_blank, ofText_append_blank, ofText_keyword,
      ofText_proposition (h p List.mem_cons_self),
      ih fun p' hp' => h p' (List.mem_cons_of_mem _ hp')]
    rfl

/-- The tokens of a rule. -/
def Rule.tokens (r : Rule) : List Token :=
  .keyword .condition :: r.connective.tokens r.antecedents ++
    .keyword .conclusion :: r.consequent.tokens

/-- **The tokens of the sentence of a rule are those of its parts.** -/
theorem Token.ofText_text {r : Rule} (h : r.WellFormed) : ofText r.text = r.tokens := by
  have htext : r.text = Keyword.condition.word ++ " " ++
      (Rule.joined r.connective.keyword r.antecedents ++ " " ++
        (Keyword.conclusion.word ++ " " ++ r.consequent.text)) := by
    have hif : "IF " = Keyword.condition.word ++ " " := by decide
    have hthen : " THEN " = " " ++ (Keyword.conclusion.word ++ " ") := by decide
    unfold Rule.text
    rw [hif, hthen]
    simp only [String.append_assoc]
  have hantecedents : ∀ p ∈ r.antecedents, p.WellFormed :=
    fun p hp => h.names p (List.mem_append_left _ hp)
  have hconsequent := h.names r.consequent (List.mem_append_right _ List.mem_cons_self)
  rw [htext, ofText_append_blank, ofText_append_blank, ofText_append_blank, ofText_keyword,
    ofText_keyword, ofText_joined _ hantecedents, ofText_proposition hconsequent]
  rfl

/-! ## 3. Reading the tokens back -/

/-- The names of propositions, in order. -/
def Proposition.allNames (ps : List Proposition) : List String := ps.flatMap Proposition.names

theorem Proposition.ofNames_allNames (ps : List Proposition) :
    ofNames (allNames ps) = ps := by
  induction ps with
  | nil => rfl
  | cons p ps ih => exact congrArg (p :: ·) ih

theorem Proposition.length_allNames (ps : List Proposition) :
    (allNames ps).length = 2 * ps.length := by
  induction ps with
  | nil => rfl
  | cons p ps ih =>
    show (allNames ps).length + 2 = _
    rw [ih, List.length_cons]
    omega

namespace Token

theorem names_append (ts us : List Token) : names (ts ++ us) = names ts ++ names us :=
  List.filterMap_append

theorem names_tokens (c : Connective) (ps : List Proposition) :
    names (c.tokens ps) = Proposition.allNames ps := by
  fun_induction Connective.tokens c ps with
  | case1 => rfl
  | case2 p => rfl
  | case3 p q rest ih =>
    rw [names_append]
    exact congrArg (p.names ++ ·) ih

theorem names_rule (r : Rule) : names r.tokens = Proposition.allNames r.propositions := by
  have h := names_tokens r.connective r.antecedents
  unfold Rule.tokens Rule.propositions Proposition.allNames at *
  rw [names_append, List.flatMap_append, ← h]
  rfl

/-- Apart from the copula, the keyword among joined clauses is their connective, if there are at
least two. -/
theorem mem_tokens_iff (c : Connective) (ps : List Proposition) {k : Keyword}
    (hk : k ≠ .copula) : .keyword k ∈ c.tokens ps ↔ k = c.asKeyword ∧ 2 ≤ ps.length := by
  fun_induction Connective.tokens c ps with
  | case1 => simp
  | case2 p => simp [Proposition.tokens, hk]
  | case3 p q rest ih =>
    have hp : .keyword k ∉ p.tokens := by simp [Proposition.tokens, hk]
    have hlen : 2 ≤ (p :: q :: rest).length := by simp
    rw [List.mem_append, List.mem_cons, ih]
    constructor
    · rintro (h | h | h)
      · exact absurd h hp
      · exact ⟨Token.keyword.inj h, hlen⟩
      · exact ⟨h.1, hlen⟩
    · intro h
      obtain ⟨rfl, -⟩ := h
      exact Or.inr (Or.inl rfl)

theorem mem_rule_iff (r : Rule) {k : Keyword} (hk : k = .conjunction ∨ k = .disjunction) :
    .keyword k ∈ r.tokens ↔ k = r.connective.asKeyword ∧ 2 ≤ r.antecedents.length := by
  have hcopula : k ≠ .copula := by rcases hk with rfl | rfl <;> decide
  have hcondition : k ≠ .condition := by rcases hk with rfl | rfl <;> decide
  have hconclusion : k ≠ .conclusion := by rcases hk with rfl | rfl <;> decide
  rw [← mem_tokens_iff r.connective r.antecedents hcopula]
  simp [Rule.tokens, Proposition.tokens, hcopula, hcondition, hconclusion]

end Token

/-- The connective that is read is that of the rule. -/
theorem Rule.WellFormed.conjunction_iff {r : Rule} (h : r.WellFormed) :
    .keyword .conjunction ∈ r.tokens ↔ r.connective = .and := by
  rw [Token.mem_rule_iff r (Or.inl rfl)]
  have hpos : 0 < r.antecedents.length := List.length_pos_iff.2 h.antecedents
  have hsingle := h.single
  generalize r.antecedents.length = n at *
  generalize r.connective = c at *
  cases c with
  | and =>
    refine ⟨fun _ => rfl, fun _ => ⟨rfl, ?_⟩⟩
    by_contra hlt
    exact absurd (hsingle (by omega)) (by decide)
  | or => exact ⟨fun h => absurd h.1 (by decide), nofun⟩

/-- A rule is read back from its tokens. -/
theorem Rule.WellFormed.ofTokens_tokens {r : Rule} (h : r.WellFormed) :
    Rule.ofTokens r.tokens = .ok r := by
  have hmixed : ¬ (.keyword .conjunction ∈ r.tokens ∧ .keyword .disjunction ∈ r.tokens) := by
    intro h
    obtain ⟨hand, hor⟩ := h
    rw [Token.mem_rule_iff r (Or.inl rfl)] at hand
    rw [Token.mem_rule_iff r (Or.inr rfl)] at hor
    exact absurd (hand.1.trans hor.1.symm) (by decide)
  have hlen := Proposition.length_allNames r.propositions
  have hpos : 0 < r.propositions.length := by simp [Rule.propositions]
  have hpaired : ¬ (Proposition.allNames r.propositions = [] ∨
      (Proposition.allNames r.propositions).length % 2 ≠ 0) := by
    rw [← List.length_eq_zero_iff, hlen]
    omega
  have hconnective : (if .keyword .conjunction ∈ r.tokens then .and else .or) = r.connective := by
    by_cases hand : r.connective = .and
    · rw [if_pos (h.conjunction_iff.2 hand), hand]
    · rw [if_neg (mt h.conjunction_iff.1 hand)]
      cases hc : r.connective with
      | and => exact absurd hc hand
      | or => rfl
  unfold Rule.ofTokens
  simp only [Token.names_rule]
  rw [if_neg hmixed, if_neg hpaired, hconnective, Proposition.ofNames_allNames]
  unfold Rule.ofPropositions Rule.propositions
  rw [List.getLast?_concat, List.dropLast_concat]
  simp only [h.antecedents, if_false]
  rw [h.of_eq]

/-- A rule is read back from its outline. -/
theorem Rule.WellFormed.toRule_ofRule {r : Rule} (h : r.WellFormed) :
    (Outline.ofRule r).toRule = .ok r := by
  have hnames : Outline.flaw? r.propositions = none := (Outline.flaw?_eq_none_iff _).2 h.names
  unfold Outline.toRule Outline.ofRule
  simp only [Outline.pairs_map, List.map_eq_nil_iff, h.antecedents, if_false, h.of_eq, hnames]
  rfl

/-! ## 4. Every rule is well formed -/

/-- The names among the tokens of a text are names, because they are words. -/
theorem Token.isName_of_mem {s w : String} (h : w ∈ names (ofText s)) : IsName w := by
  unfold names ofText at h
  rw [List.mem_filterMap] at h
  obtain ⟨t, ht, htw⟩ := h
  obtain ⟨cs, hcs, rfl⟩ := List.mem_map.1 ht
  unfold ofWord at htw
  cases hkeyword : Keyword.ofWord? (String.ofList cs) with
  | some k =>
    rw [hkeyword] at htw
    cases htw
  | none =>
    rw [hkeyword] at htw
    obtain rfl : String.ofList cs = w := Option.some.inj htw
    refine ⟨?_, ?_, hkeyword⟩
    · rw [String.toList_ofList]
      exact Text.ne_nil_of_mem_words _ cs hcs
    · rw [String.toList_ofList]
      exact Text.not_blank_of_mem_words _ cs hcs

theorem Proposition.wellFormed_of_mem_ofNames {ws : List String} (h : ∀ w ∈ ws, IsName w) :
    ∀ p ∈ ofNames ws, p.WellFormed := by
  fun_induction ofNames ws with
  | case1 subject set rest ih =>
    intro p hp
    rcases List.mem_cons.1 hp with rfl | hp
    · intro w hw
      refine h w ?_
      rcases List.mem_cons.1 hw with rfl | hw
      · exact List.mem_cons_self
      · exact List.mem_cons_of_mem _ (List.mem_singleton.1 hw ▸ List.mem_cons_self)
    · exact ih (fun w hw => h w (List.mem_cons_of_mem _ (List.mem_cons_of_mem _ hw))) p hp
  | case2 => exact nofun

/-- A rule that is read from a sentence is well formed. -/
theorem Rule.wellFormed_of_ofText {s : String} {r : Rule} (h : Rule.ofText s = .ok r) :
    r.WellFormed := by
  have hps : ∀ p ∈ Proposition.ofNames (Token.names (Token.ofText s)), p.WellFormed :=
    Proposition.wellFormed_of_mem_ofNames fun w => Token.isName_of_mem
  unfold Rule.ofText Rule.ofTokens at h
  simp only at h
  split at h
  · cases h
  · split at h
    · cases h
    · unfold Rule.ofPropositions at h
      split at h
      · cases h
      · rename_i consequent hlast
        split at h
        · cases h
        · rename_i hne
          cases h
          refine Rule.wellFormed_of hne ?_
          have hsplit := List.dropLast_append_getLast? consequent hlast
          rwa [hsplit]

theorem Outline.length_of_pairs {index : Nat} {lists : List (List String)} {ps : List Proposition}
    (h : pairs index lists = .ok ps) : ps.length = lists.length := by
  fun_induction Outline.pairs index lists generalizing ps with
  | case1 =>
    cases h
    rfl
  | case2 index rest subject set ih =>
    cases hrest : Outline.pairs (index + 1) rest with
    | error e =>
      rw [hrest] at h
      cases h
    | ok qs =>
      rw [hrest] at h
      cases h
      exact congrArg (· + 1) (ih hrest)
  | case3 => cases h

/-- A rule that an outline makes is well formed. -/
theorem Rule.wellFormed_of_toRule {o : Outline} {r : Rule} (h : o.toRule = .ok r) :
    r.WellFormed := by
  unfold Outline.toRule at h
  split at h
  · cases h
  · rename_i hne
    split at h
    · cases h
    · split at h
      · cases h
      · rename_i antecedents hpairs
        split at h
        · simp only at h
          split at h
          · cases h
          · rename_i hflaw
            cases h
            refine Rule.wellFormed_of ?_ ((Outline.flaw?_eq_none_iff _).1 hflaw)
            rw [← List.length_pos_iff, Outline.length_of_pairs hpairs, List.length_pos_iff]
            exact hne
        · cases h

/-- A rule that the library gives: read from a sentence, made of an outline, or read from JSON. -/
inductive Rule.Obtainable : Rule → Prop where
  | ofText {s : String} {r : Rule} (h : Rule.ofText s = .ok r) : Obtainable r
  | toRule {o : Outline} {r : Rule} (h : o.toRule = .ok r) : Obtainable r
  | ofJson {v : Json} {r : Rule} (h : Rule.ofJson v = .ok r) : Obtainable r
  | ofJsonText {text : String} {r : Rule} (h : readText Rule.ofJson text = .ok r) : Obtainable r

/-- **Every rule is well formed.** -/
theorem Rule.Obtainable.wellFormed {r : Rule} (h : r.Obtainable) : r.WellFormed := by
  cases h with
  | ofText h => exact wellFormed_of_ofText h
  | toRule h => exact wellFormed_of_toRule h
  | ofJson h =>
    obtain ⟨o, ho⟩ := exists_outline_of_ofJson h
    exact wellFormed_of_toRule ho
  | ofJsonText h =>
    obtain ⟨v, hv⟩ := exists_of_readText h
    obtain ⟨o, ho⟩ := exists_outline_of_ofJson hv
    exact wellFormed_of_toRule ho

/-! ## 5. Round trips -/

/-- **A rule is read back from its sentence, and made again of its outline**, with its connective,
its antecedents in their order and its consequent. -/
theorem Rule.roundTrip (r : Rule) (h : r.Obtainable) :
    Rule.ofText r.text = .ok r ∧ (Outline.ofRule r).toRule = .ok r := by
  have hr := h.wellFormed
  refine ⟨?_, hr.toRule_ofRule⟩
  unfold Rule.ofText
  rw [Token.ofText_text hr]
  exact hr.ofTokens_tokens

/-- A rule that asks for `AND` with nothing to join. -/
theorem Rule.roundTrip_single :
    Rule.Obtainable ⟨.or, [⟨"service", "good"⟩], ⟨"tip", "high"⟩⟩ ∧
      Rule.ofText (Rule.text ⟨.or, [⟨"service", "good"⟩], ⟨"tip", "high"⟩⟩) =
        .ok ⟨.or, [⟨"service", "good"⟩], ⟨"tip", "high"⟩⟩ := by
  have h : Rule.Obtainable ⟨.or, [⟨"service", "good"⟩], ⟨"tip", "high"⟩⟩ :=
    .toRule (o := ⟨.and, [["service", "good"]], ["tip", "high"]⟩) (by decide)
  exact ⟨h, (Rule.roundTrip _ h).1⟩

end FuzzyControl
