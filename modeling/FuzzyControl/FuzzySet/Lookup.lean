import FuzzyControl.FuzzySet.Basic
import FuzzyControl.Settings

/-!
# Looking up the membership of a value

* `bisect?`: the element that a comparison picks out of a sorted list, by halving the list;
* `nearestIndex?`: the place of the value nearest to a given one, the first of equally near ones;
* `interpolate?`: the line through the samples, level outside of them;
* `membershipAt`: one of the three, as the settings choose; a value without an answer is off the
  grid.
-/

namespace FuzzyControl

/-! ## 1. Halving a sorted list -/

/-- Halves a list until one element is left, and gives that element if it compares equal; the half
that begins with an element above the target is cut off. `steps` bounds the number of halvings. -/
def bisectWithin {α : Type} (compare : α → Ordering) : Nat → List α → Option α
  | _, [] => none
  | _, [a] => if compare a = .eq then some a else none
  | 0, _ => none
  | steps + 1, xs =>
      let half := xs.length / 2
      match xs.drop half with
      | [] => none
      | b :: rest =>
          if compare b = .gt then bisectWithin compare steps (xs.take (xs.length - half))
          else bisectWithin compare steps (b :: rest)

/-- The element of a sorted list that compares equal to the target, found by halving the list. -/
def bisect? {α : Type} (compare : α → Ordering) (xs : List α) : Option α :=
  bisectWithin compare xs.length xs

/-- How a value stands to `x`; a value that cannot be compared counts as below. -/
def standing (x value : Float) : Ordering :=
  if value == x then .eq else if x < value then .gt else .lt

/-! ## 2. The nearest value -/

/-- The better of the best place so far and the place `index` at `distance`: the one nearer, and
the earlier one of two equally near. A distance that is not a number is no candidate. -/
def nearer (best : Option (Nat × Float)) (index : Nat) (distance : Float) :
    Option (Nat × Float) :=
  if distance.isNaN then best
  else match best with
    | none => some (index, distance)
    | some (i, d) => if d ≤ distance then some (i, d) else some (index, distance)

/-- The best place in a list whose first place is `index`, given the best one before it. -/
def nearestFrom (x : Float) : Nat → Option (Nat × Float) → List Float → Option (Nat × Float)
  | _, best, [] => best
  | index, best, y :: ys => nearestFrom x (index + 1) (nearer best index (y - x).abs) ys

/-- The place of the value nearest to `x`, the first of equally near ones. What is not a number is
near to nothing. -/
def nearestIndex? (x : Float) (values : List Float) : Option Nat :=
  if x.isNaN then none else (nearestFrom x 0 none values).map Prod.fst

/-! ## 3. The line through the samples -/

/-- The line between two samples, at `x`. -/
def lineAt (x : Float) (a b : Sample) : Float :=
  a.membership + (x - a.value) * (b.membership - a.membership) / (b.value - a.value)

/-- The line through the first two neighbours that have `x` between them. -/
def between? (x : Float) : List Sample → Option Float
  | a :: b :: rest =>
      if a.value ≤ x ∧ x ≤ b.value then some (lineAt x a b) else between? x (b :: rest)
  | _ => none

/-- The line through the samples at `x`, level before the first and after the last. -/
def interpolate? (x : Float) (samples : List Sample) : Option Float :=
  match samples.head?, samples.getLast? with
  | some first, some last =>
      if x ≤ first.value then some first.membership
      else if last.value ≤ x then some last.membership
      else between? x samples
  | _, _ => none

/-! ## 4. The membership of a value -/

namespace FuzzySet

/-- The membership of `x`, if the way of looking it up gives one. -/
def membershipAt? (s : FuzzySet) (x : Float) : Lookup → Option Float
  | .exact => (bisect? (fun p => standing x p.value) s.samples).map Sample.membership
  | .nearest => (nearestIndex? x s.grid).bind fun i => s.memberships[i]?
  | .interpolate => interpolate? x s.samples

/-- The membership of `x`. -/
def membershipAt (s : FuzzySet) (x : Float) (lookup : Lookup) : Except Fault Float :=
  match s.membershipAt? x lookup with
  | some m => .ok m
  | none => .error (.offGrid s.name x)

end FuzzySet

end FuzzyControl
