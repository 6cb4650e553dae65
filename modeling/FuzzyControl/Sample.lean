/-!
# Samples: a membership function at one value

A membership function is kept as a list of samples. This file holds one sample, what makes a list
of them a membership function, and the sorting of points given in any order.

* `Sample.isGrade`: the value is a number and the membership lies in the unit interval;
* `descent?`: the first two neighbours that do not ascend;
* `Valid`: every sample is a grade and the values strictly ascend;
* `sortByValue`: points in ascending order of value, equal ones in the order given.
-/

namespace FuzzyControl

/-- The membership of one value. -/
structure Sample where
  value : Float
  membership : Float
  deriving DecidableEq

namespace Sample

/-- Whether the value is a number and the membership lies in the unit interval. -/
def isGrade (s : Sample) : Bool :=
  !s.value.isNaN && (0 ≤ s.membership && s.membership ≤ 1)

/-- Whether two samples agree in value and membership, where the two zeros are equal. -/
def agrees (a b : Sample) : Bool :=
  a.value == b.value && a.membership == b.membership

/-! ## 1. Ascending values -/

/-- The first two neighbours whose values do not ascend. -/
def descent? : List Sample → Option (Float × Float)
  | a :: b :: rest =>
      if b.value ≤ a.value then some (a.value, b.value) else descent? (b :: rest)
  | _ => none

/-- A membership function: every sample is a grade, and the values strictly ascend. -/
def Valid (samples : List Sample) : Prop :=
  (∀ s ∈ samples, s.isGrade = true) ∧ descent? samples = none

instance (samples : List Sample) : Decidable (Valid samples) :=
  inferInstanceAs (Decidable (_ ∧ _))

/-! ## 2. Points in any order -/

/-- A point put into a descending list, behind the points above it and before those it equals. -/
def insertDescending (p : Sample) : List Sample → List Sample
  | [] => [p]
  | q :: rest => if p.value < q.value then q :: insertDescending p rest else p :: q :: rest

/-- Points in ascending order of value; points of equal value keep their order. A point is
compared from the largest value downwards, so one that comes in order is placed at once. -/
def sortByValue (points : List Sample) : List Sample :=
  (points.foldl (fun sorted p => insertDescending p sorted) []).reverse

theorem insertDescending_perm (p : Sample) (qs : List Sample) :
    (insertDescending p qs).Perm (p :: qs) := by
  induction qs with
  | nil => exact .refl _
  | cons q rest ih =>
    unfold insertDescending
    split
    · exact (ih.cons q).trans (.swap p q rest)
    · exact .refl _

/-- Sorting neither loses nor adds a point. -/
theorem sortByValue_perm (points : List Sample) : (sortByValue points).Perm points := by
  have h : ∀ (ps acc : List Sample),
      (ps.foldl (fun sorted p => insertDescending p sorted) acc).Perm (ps ++ acc) := by
    intro ps
    induction ps with
    | nil => intro acc; exact .refl _
    | cons p ps ih =>
      intro acc
      refine (ih _).trans ?_
      refine ((insertDescending_perm p acc).append_left ps).trans ?_
      exact List.perm_middle
  exact (List.reverse_perm _).trans (by simpa using h points [])

end Sample

end FuzzyControl
