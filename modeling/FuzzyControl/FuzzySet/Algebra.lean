import FuzzyControl.FuzzySet.Basic

/-!
# The algebra of fuzzy sets

Complement, union and intersection work on the memberships and keep the name and the grid of their
(left) operand. Union and intersection need both operands on one grid. Cuts go the other way, from
a set to values.

* `sameGrid`: as many samples, and equal values in every place;
* `union`, `intersection`: the larger and the smaller of two memberships;
* `unionAll`: the union of a list, which carries the name of the first set.
-/

namespace FuzzyControl.FuzzySet

/-! ## 1. Pointwise operations -/

/-- The set with `f` applied to every membership. -/
def mapMembership (f : Float → Float) (s : FuzzySet) : FuzzySet :=
  { s with samples := s.samples.map fun p => ⟨p.value, f p.membership⟩ }

/-- The set under another name. -/
def rename (s : FuzzySet) (name : String) : FuzzySet := { s with name }

/-- What a set does not hold, at every value. -/
def complement (s : FuzzySet) : FuzzySet := s.mapMembership fun m => 1 - m

/-- Whether two sets are sampled at the same values, where the two zeros are equal. -/
def sameGrid (s t : FuzzySet) : Bool :=
  s.samples.length == t.samples.length &&
    (s.samples.zip t.samples).all fun p => p.1.value == p.2.value

/-- Two sets on one grid, their memberships joined by `f`; the left one gives name and values. -/
def zipMembership (f : Float → Float → Float) (s t : FuzzySet) : Except Fault FuzzySet :=
  if s.sameGrid t then
    .ok { s with samples := List.zipWith (fun p q => ⟨p.value, f p.membership q.membership⟩)
                              s.samples t.samples }
  else .error (.domainMismatch s.name t.name)

/-- The larger membership at every value. -/
def union (s t : FuzzySet) : Except Fault FuzzySet := zipMembership greatest s t

/-- The smaller membership at every value. -/
def intersection (s t : FuzzySet) : Except Fault FuzzySet := zipMembership least s t

/-- The largest membership at every value over a list of sets on one grid, under the name of the
first; there is no such set without sets. -/
def unionAll : List FuzzySet → Except Fault (Option FuzzySet)
  | [] => .ok none
  | s :: rest => (rest.foldlM union s).map some

@[simp] theorem grid_mapMembership (f : Float → Float) (s : FuzzySet) :
    (s.mapMembership f).grid = s.grid := by
  simp [grid, mapMembership, Function.comp_def]

@[simp] theorem memberships_mapMembership (f : Float → Float) (s : FuzzySet) :
    (s.mapMembership f).memberships = s.memberships.map f := by
  simp [memberships, mapMembership, Function.comp_def]

/-- Two sets are joined iff they are on one grid. -/
theorem zipMembership_isOk_iff (f : Float → Float → Float) (s t : FuzzySet) :
    (∃ u, zipMembership f s t = .ok u) ↔ s.sameGrid t = true := by
  unfold zipMembership
  split <;> simp_all

/-! ## 2. Cuts -/

/-- The values whose membership is at least `alpha`, or above it in a strong cut. -/
def alphaCut (s : FuzzySet) (alpha : Float) (strong : Bool) : List Float :=
  (s.samples.filter fun p => if strong then alpha < p.membership else alpha ≤ p.membership).map
    Sample.value

end FuzzyControl.FuzzySet
