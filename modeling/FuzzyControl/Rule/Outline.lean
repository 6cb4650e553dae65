import FuzzyControl.Rule.Sentence

/-!
# Outlines of rules

An outline is a rule as data: lists of parts that should each be a pair, subject and set. It makes
a rule if every list is a pair and every part can stand as a name in a sentence.

* `Outline.nameFlaw?`: what keeps a text from being a name: being empty, a blank in it, or being a
  keyword;
* `Outline.toRule`: the rule, or the first thing wrong: the number of antecedents, of parts of the
  consequent, of parts of an antecedent, and last the names;
* `Outline.ofRule`: the outline of a rule.
-/

namespace FuzzyControl

/-- A rule as lists of parts. -/
structure Outline where
  connective : Connective
  antecedents : List (List String)
  consequent : List String
  deriving DecidableEq

namespace Outline

/-! ## 1. Names -/

/-- What keeps a text from being a name, that is one word of a sentence that is no keyword. -/
def nameFlaw? (name : String) : Option Malformation :=
  if name.toList = [] then some .emptyName
  else if name.toList.any Text.isBlank then some (.blankInName name)
  else if (Keyword.ofWord? name).isSome then some (.keywordAsName name)
  else none

/-- The first flaw among the names of some propositions. -/
def flaw? (ps : List Proposition) : Option Malformation :=
  (ps.flatMap fun p => [p.subject, p.set]).findSome? nameFlaw?

/-! ## 2. Rules -/

/-- The propositions of lists of parts; an error holds the place of the first list that is no pair
and the number of its parts. Places are counted from `index`. -/
def pairs : Nat → List (List String) → Except (Nat × Nat) (List Proposition)
  | _, [] => .ok []
  | index, parts :: rest =>
      match parts with
      | [subject, set] => (pairs (index + 1) rest).map (⟨subject, set⟩ :: ·)
      | _ => .error (index, parts.length)

/-- The rule of an outline. -/
def toRule (o : Outline) : Except Fault Rule :=
  if o.antecedents = [] then .error .noAntecedents
  else if o.consequent = [] then .error .noConsequent
  else match pairs 0 o.antecedents with
    | .error (index, found) => .error (.antecedentArity index found)
    | .ok antecedents =>
        match o.consequent with
        | [subject, set] =>
            let r := Rule.of o.connective antecedents ⟨subject, set⟩
            match flaw? r.propositions with
            | some why => .error (.malformedRule why)
            | none => .ok r
        | parts => .error (.consequentArity parts.length)

/-- The outline of a rule. -/
def ofRule (r : Rule) : Outline where
  connective := r.connective
  antecedents := r.antecedents.map fun p => [p.subject, p.set]
  consequent := [r.consequent.subject, r.consequent.set]

/-- Pairs are taken as they are. -/
theorem pairs_map (index : Nat) (ps : List Proposition) :
    pairs index (ps.map fun p => [p.subject, p.set]) = .ok ps := by
  induction ps generalizing index with
  | nil => rfl
  | cons p ps ih => simp [pairs, ih, Except.map]

end Outline

end FuzzyControl
