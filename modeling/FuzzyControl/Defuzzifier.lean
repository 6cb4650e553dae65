import FuzzyControl.Scalar
import FuzzyControl.Fault.Basic

/-!
# Defuzzifiers

A defuzzifier makes one crisp value of a membership function over a grid of values.

* `crispOf?`: the centroid, or the mean, the least or the greatest of the values at which the
  membership is largest; sums run from left to right;
* `Defuzzifier.ofTag`: a defuzzifier by its tag;
* `Scheme`: the kinds of inference, of which there is one.
-/

namespace FuzzyControl

/-- How one crisp value is made of a membership function. -/
inductive Defuzzifier where
  /-- The mean of the values, weighted by their memberships. -/
  | centroid
  /-- The mean of the values of largest membership. -/
  | meanOfMaxima
  /-- The least value of largest membership. -/
  | smallestOfMaxima
  /-- The greatest value of largest membership. -/
  | largestOfMaxima
  deriving DecidableEq

namespace Defuzzifier

/-! ## 1. Tags -/

/-- All defuzzifiers. -/
def all : List Defuzzifier := [.centroid, .meanOfMaxima, .smallestOfMaxima, .largestOfMaxima]

/-- The tag of a defuzzifier. -/
def tag : Defuzzifier → String
  | .centroid => "Centroid"
  | .meanOfMaxima => "MeanOfMaxima"
  | .smallestOfMaxima => "SmallestOfMaxima"
  | .largestOfMaxima => "LargestOfMaxima"

/-- The defuzzifier with a given tag. -/
def ofTag (tag : String) : Except Fault Defuzzifier :=
  match all.find? fun m => m.tag == tag with
  | some m => .ok m
  | none => .error (.unknownDefuzzifier tag)

theorem ofTag_tag (m : Defuzzifier) : ofTag m.tag = .ok m := by cases m <;> rfl

/-! ## 2. Crisp values -/

section Crisp

variable {α : Type} [Scalar α]

/-- The weighted sum of the values and the sum of the weights. -/
def moments (samples : List (α × α)) : α × α :=
  samples.foldl (fun sums s => (sums.1 + s.1 * s.2, sums.2 + s.2)) (0, 0)

/-- The values whose membership equals `maximum`. -/
def valuesAt (maximum : α) (samples : List (α × α)) : List α :=
  (samples.filter fun s => s.2 == maximum).map Prod.fst

/-- The mean of a list of values. -/
def mean (values : List α) : α := values.foldl (· + ·) 0 / Scalar.ofCount values.length

/-- The crisp value of the function with the memberships `memberships` over `grid`. Samples are
made of the entries that both lists have; the largest membership is that of the whole list. There
is no value without memberships, nor a centroid where they sum up to zero. -/
def crispOf? (m : Defuzzifier) (grid memberships : List α) : Option α :=
  let samples := grid.zip memberships
  match m with
  | .centroid =>
      let sums := moments samples
      if sums.2 == 0 then none else some (sums.1 / sums.2)
  | .meanOfMaxima =>
      (greatest? memberships).map fun maximum => mean (valuesAt maximum samples)
  | .smallestOfMaxima =>
      (greatest? memberships).bind fun maximum => least? (valuesAt maximum samples)
  | .largestOfMaxima =>
      (greatest? memberships).bind fun maximum => greatest? (valuesAt maximum samples)

end Crisp

end Defuzzifier

/-! ## 3. Kinds of inference -/

/-- The kinds of inference. -/
inductive Scheme where
  /-- Consequents are clipped at the strength of their rule and joined by the maximum. -/
  | mamdani
  deriving DecidableEq

namespace Scheme

/-- The tag of a kind of inference. -/
def tag : Scheme → String
  | .mamdani => "Mamdani"

/-- The kind of inference with a given tag. -/
def ofTag (tag : String) : Except Fault Scheme :=
  if tag = Scheme.mamdani.tag then .ok .mamdani else .error (.unknownScheme tag)

end Scheme

end FuzzyControl
