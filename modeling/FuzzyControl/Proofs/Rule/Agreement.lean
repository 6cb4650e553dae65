import FuzzyControl.Proofs.Rule.RoundTrip
import FuzzyControl.Controller.Basic

/-!
# Outlines and sentences agree

A rule can be given as an outline or as a sentence. Written with the same strings, whatever these
are, the one is accepted exactly when the other reads back: a string that is not one word, or that
is a keyword, is never put together again from the words of the sentence.

* `Outline.toRule_ofRule_eq`: the outline of clauses is looked at for its names only;
* `Rule.ofText_text_iff`: the sentence of clauses reads back if all its names are names;
* `Outline.Misshapen`: what is wrong with an outline whose lists are no pairs, and
  `Outline.Misshapen.toRule_eq`: that comes before any name;
* `Outline.accepted_iff_readsBack`: outlines and sentences are accepted alike, and change every
  controller alike.
-/

namespace FuzzyControl

/-! ## 1. Clauses as a sentence and as an outline -/

section Clauses

variable {c : Connective} {ps : List Proposition} {p : Proposition} {r : Rule}

/-- The sentence of clauses does not show what a single one would be joined by. -/
theorem Rule.text_of (c : Connective) (ps : List Proposition) (p : Proposition) :
    (Rule.of c ps p).text = Rule.text ⟨c, ps, p⟩ := by
  match ps with
  | [] => rfl
  | [_] => rfl
  | _ :: _ :: _ => rfl

/-- Clauses whose names are names are read back from their sentence. -/
theorem Rule.ofText_text_of (hps : ps ≠ []) (hnames : ∀ q ∈ ps ++ [p], q.WellFormed) :
    Rule.ofText (Rule.text ⟨c, ps, p⟩) = .ok (Rule.of c ps p) := by
  have hr := Rule.wellFormed_of (c := c) hps hnames
  rw [← Rule.text_of, Rule.ofText, Token.ofText_text hr]
  exact hr.ofTokens_tokens

/-- **The sentence of clauses reads back if all names are names**: no other strings come out of a
sentence. -/
theorem Rule.ofText_text_iff (hps : ps ≠ []) :
    (∃ r, Rule.ofText (Rule.text ⟨c, ps, p⟩) = .ok r ∧ r.antecedents = ps ∧ r.consequent = p) ↔
      ∀ q ∈ ps ++ [p], q.WellFormed := by
  refine ⟨fun h => ?_, fun h => ⟨_, Rule.ofText_text_of hps h, rfl, rfl⟩⟩
  obtain ⟨r, hr, rfl, rfl⟩ := h
  exact (Rule.wellFormed_of_ofText hr).names

/-- The lists of an outline of clauses are pairs, so it is looked at for its names only. -/
theorem Outline.toRule_ofRule_eq (hps : ps ≠ []) :
    (Outline.ofRule ⟨c, ps, p⟩).toRule =
      match Outline.flaw? (ps ++ [p]) with
      | some why => .error (.malformedRule why)
      | none => .ok (Rule.of c ps p) := by
  unfold Outline.toRule Outline.ofRule
  simp only [Outline.pairs_map, List.map_eq_nil_iff, hps, if_false]
  rfl

theorem Outline.toRule_ofRule_eq_ok_iff (hps : ps ≠ []) :
    (Outline.ofRule ⟨c, ps, p⟩).toRule = .ok r ↔
      (∀ q ∈ ps ++ [p], q.WellFormed) ∧ Rule.of c ps p = r := by
  rw [Outline.toRule_ofRule_eq hps, ← Outline.flaw?_eq_none_iff]
  cases Outline.flaw? (ps ++ [p]) with
  | none => simp
  | some why => simp

end Clauses

/-! ## 2. Outlines of another shape -/

/-- What is wrong with the shape of an outline, whatever its strings are. -/
inductive Outline.Misshapen (o : Outline) : Fault → Prop where
  | noAntecedents (h : o.antecedents = []) : Misshapen o .noAntecedents
  | noConsequent (hne : o.antecedents ≠ []) (h : o.consequent = []) : Misshapen o .noConsequent
  | antecedentArity (hne : o.consequent ≠ []) {before after : List (List String)}
      {parts : List String} (h : o.antecedents = before ++ parts :: after)
      (hbefore : ∀ qs ∈ before, qs.length = 2) (hparts : parts.length ≠ 2) :
      Misshapen o (.antecedentArity before.length parts.length)
  | consequentArity (hne : o.antecedents ≠ []) (hpairs : ∀ qs ∈ o.antecedents, qs.length = 2)
      (hne' : o.consequent ≠ []) (h : o.consequent.length ≠ 2) :
      Misshapen o (.consequentArity o.consequent.length)

namespace Outline

/-- A list of two strings is a proposition. -/
theorem exists_names_of_length {parts : List String} (h : parts.length = 2) :
    ∃ p : Proposition, parts = p.names := by
  obtain ⟨subject, set, rfl⟩ := List.length_eq_two.1 h
  exact ⟨⟨subject, set⟩, rfl⟩

theorem exists_map_names {lists : List (List String)} (h : ∀ qs ∈ lists, qs.length = 2) :
    ∃ ps : List Proposition, lists = ps.map Proposition.names := by
  induction lists with
  | nil => exact ⟨[], rfl⟩
  | cons qs lists ih =>
    obtain ⟨p, rfl⟩ := exists_names_of_length (h qs List.mem_cons_self)
    obtain ⟨ps, rfl⟩ := ih fun qs hqs => h qs (List.mem_cons_of_mem _ hqs)
    exact ⟨p :: ps, rfl⟩

/-- Lists are pairs, or there is a first one that is none. -/
theorem pairs_or_exists_first (lists : List (List String)) :
    (∀ qs ∈ lists, qs.length = 2) ∨ ∃ before parts after, lists = before ++ parts :: after ∧
      (∀ qs ∈ before, qs.length = 2) ∧ parts.length ≠ 2 := by
  induction lists with
  | nil => exact .inl nofun
  | cons qs lists ih =>
    by_cases hqs : qs.length = 2
    · rcases ih with hall | ⟨before, parts, after, rfl, hbefore, hparts⟩
      · exact .inl (List.forall_mem_cons.2 ⟨hqs, hall⟩)
      · exact .inr ⟨qs :: before, parts, after, rfl, List.forall_mem_cons.2 ⟨hqs, hbefore⟩, hparts⟩
    · exact .inr ⟨[], qs, lists, rfl, nofun, hqs⟩

/-- The first list that is no pair is found. -/
theorem pairs_eq_error (index : Nat) {before after : List (List String)} {parts : List String}
    (hbefore : ∀ qs ∈ before, qs.length = 2) (hparts : parts.length ≠ 2) :
    pairs index (before ++ parts :: after) = .error (index + before.length, parts.length) := by
  induction before generalizing index with
  | nil =>
    match parts with
    | [] => rfl
    | [_] => rfl
    | [_, _] => exact absurd rfl hparts
    | _ :: _ :: _ :: _ => rfl
  | cons qs before ih =>
    rw [List.forall_mem_cons] at hbefore
    obtain ⟨p, rfl⟩ := exists_names_of_length hbefore.1
    show (pairs (index + 1) (before ++ parts :: after)).map _ = _
    rw [ih (index + 1) hbefore.2, List.length_cons, Nat.add_right_comm, Nat.add_assoc]
    rfl

/-- **What is wrong with the shape is reported, whatever the strings are.** -/
theorem Misshapen.toRule_eq {o : Outline} {fault : Fault} (h : o.Misshapen fault) :
    o.toRule = .error fault := by
  unfold toRule
  cases h with
  | noAntecedents h => rw [if_pos h]
  | noConsequent hne h => rw [if_neg hne, if_pos h]
  | antecedentArity hne h hbefore hparts =>
    have hne' : o.antecedents ≠ [] := by
      rw [h]
      exact List.append_ne_nil_of_right_ne_nil _ (List.cons_ne_nil _ _)
    rw [if_neg hne', if_neg hne, h, pairs_eq_error 0 hbefore hparts, Nat.zero_add]
  | consequentArity hne hpairs hne' h =>
    obtain ⟨ps, hps⟩ := exists_map_names hpairs
    have hmap : pairs 0 (ps.map Proposition.names) = .ok ps := pairs_map 0 ps
    rw [if_neg hne, if_neg hne', hps, hmap]
    generalize o.consequent = parts at *
    match parts with
    | [] => exact absurd rfl hne'
    | [_] => rfl
    | [_, _] => exact absurd rfl h
    | _ :: _ :: _ :: _ => rfl

/-- An outline is misshapen, or the outline of clauses. -/
theorem misshapen_or_exists_ofRule (o : Outline) :
    (∃ fault, o.Misshapen fault) ∨ ∃ c ps p, ps ≠ [] ∧ o = ofRule ⟨c, ps, p⟩ := by
  by_cases hne : o.antecedents = []
  · exact .inl ⟨_, .noAntecedents hne⟩
  by_cases hne' : o.consequent = []
  · exact .inl ⟨_, .noConsequent hne hne'⟩
  rcases pairs_or_exists_first o.antecedents with hall | ⟨before, parts, after, h, hbefore, hparts⟩
  · by_cases hlen : o.consequent.length = 2
    · obtain ⟨c, lists, parts⟩ := o
      obtain ⟨ps, rfl⟩ := exists_map_names hall
      obtain ⟨p, rfl⟩ := exists_names_of_length hlen
      exact .inr ⟨c, ps, p, mt (congrArg (List.map Proposition.names)) hne, rfl⟩
    · exact .inl ⟨_, .consequentArity hne hall hne' hlen⟩
  · exact .inl ⟨_, .antecedentArity hne' h hbefore hparts⟩

end Outline

/-! ## 3. Agreement -/

/-- A controller is changed alike by an outline and a sentence of the same rule. -/
theorem Controller.held_addOutline_eq {o : Outline} {sentence : String} {r : Rule}
    (ho : o.toRule = .ok r) (hs : Rule.ofText sentence = .ok r) (k : Controller) :
    k.held (.addOutline o) = k.held (.addSentence sentence) := by
  rw [k.held_addOutline, k.held_addSentence, ho, hs]

/-- **An outline of clauses is accepted exactly when its sentence reads back.** The strings of the
clauses are arbitrary. If the outline is accepted, both are the same rule and change every controller
alike; otherwise it is refused for a name. Every other outline is misshapen, and is refused for its
shape. -/
theorem Outline.accepted_iff_readsBack :
    (∀ c ps p, ps ≠ [] →
      ((∃ r, (ofRule ⟨c, ps, p⟩).toRule = .ok r) ↔
        ∃ r, Rule.ofText (Rule.text ⟨c, ps, p⟩) = .ok r ∧ r.antecedents = ps ∧ r.consequent = p) ∧
      (∀ r, (ofRule ⟨c, ps, p⟩).toRule = .ok r →
        Rule.ofText (Rule.text ⟨c, ps, p⟩) = .ok r ∧
        ∀ k : Controller, k.held (.addOutline (ofRule ⟨c, ps, p⟩)) =
          k.held (.addSentence (Rule.text ⟨c, ps, p⟩))) ∧
      ((∀ r, (ofRule ⟨c, ps, p⟩).toRule ≠ .ok r) →
        ∃ why, (ofRule ⟨c, ps, p⟩).toRule = .error (.malformedRule why))) ∧
    (∀ (o : Outline) fault, o.Misshapen fault → o.toRule = .error fault) ∧
    ∀ o : Outline, (∃ fault, o.Misshapen fault) ∨ ∃ c ps p, ps ≠ [] ∧ o = ofRule ⟨c, ps, p⟩ := by
  refine ⟨fun c ps p hps => ⟨?_, ?_, ?_⟩, fun o fault => Misshapen.toRule_eq,
    misshapen_or_exists_ofRule⟩
  · rw [Rule.ofText_text_iff hps]
    simp only [toRule_ofRule_eq_ok_iff hps, exists_and_left, exists_eq', and_true]
  · intro r hr
    obtain ⟨hnames, rfl⟩ := (toRule_ofRule_eq_ok_iff hps).1 hr
    have hs := Rule.ofText_text_of (c := c) hps hnames
    exact ⟨hs, Controller.held_addOutline_eq hr hs⟩
  · intro hrefused
    rw [toRule_ofRule_eq hps] at hrefused ⊢
    cases hflaw : flaw? (ps ++ [p]) with
    | some why => exact ⟨why, rfl⟩
    | none =>
      rw [hflaw] at hrefused
      exact absurd rfl (hrefused _)

/-- An outline that is accepted; one whose sentence is read as other clauses, as a set has two words;
and one that is refused for its second antecedent, not for the keyword in the first. -/
theorem Outline.accepted_iff_readsBack_tall :
    (Rule.ofText "IF Height IS Tall THEN Score IS High" =
        .ok ⟨.or, [⟨"Height", "Tall"⟩], ⟨"Score", "High"⟩⟩ ∧
      ∀ k : Controller,
        k.held (.addOutline ⟨.and, [["Height", "Tall"]], ["Score", "High"]⟩) =
          k.held (.addSentence "IF Height IS Tall THEN Score IS High")) ∧
      (∃ why, toRule ⟨.and, [["Height", "Very Tall"], ["Age", "Old"]], ["Score", "High"]⟩ =
        .error (.malformedRule why)) ∧
      toRule ⟨.and, [["IF", "Tall"], ["Age"], ["Age", "Old"]], ["Score", "High"]⟩ =
        .error (.antecedentArity 1 1) := by
  obtain ⟨hclauses, hmisshapen, -⟩ := accepted_iff_readsBack
  obtain ⟨-, hsame, -⟩ := hclauses .and [⟨"Height", "Tall"⟩] ⟨"Score", "High"⟩
    (List.cons_ne_nil _ _)
  obtain ⟨haccepted, -, hrefused⟩ := hclauses .and [⟨"Height", "Very Tall"⟩, ⟨"Age", "Old"⟩]
    ⟨"Score", "High"⟩ (List.cons_ne_nil _ _)
  have hread : Rule.ofText
      (Rule.text ⟨.and, [⟨"Height", "Very Tall"⟩, ⟨"Age", "Old"⟩], ⟨"Score", "High"⟩⟩) =
        .error (.malformedRule (.unpaired 7)) := by decide +kernel
  refine ⟨hsame _ (by decide +kernel), hrefused fun r hr => ?_, hmisshapen _ _ ?_⟩
  · obtain ⟨r', hr', -⟩ := haccepted.1 ⟨r, hr⟩
    exact absurd (hr'.symm.trans hread) (by simp)
  · have hbefore : ∀ qs ∈ [["IF", "Tall"]], qs.length = 2 := by decide
    have hage : ["Age"].length ≠ 2 := by decide
    exact .antecedentArity (List.cons_ne_nil _ _) rfl hbefore hage

end FuzzyControl
