/-!
# Settings of an evaluation

* `Lookup`: how the membership of an argument is read off a sampled set;
* `ZeroHeight`: the centroid of a set whose memberships are all zero;
* `Settings`: both, with their defaults.
-/

namespace FuzzyControl

/-- How the membership of an argument is read off the samples. -/
inductive Lookup where
  /-- The argument has to be one of the values. -/
  | exact
  /-- The membership at the nearest value, the smaller of two equally near. -/
  | nearest
  /-- On the line between the two samples around the argument, and level outside the values. -/
  | interpolate
  deriving DecidableEq

/-- The centroid of a set whose memberships are all zero. -/
inductive ZeroHeight where
  /-- It is zero. -/
  | zero
  /-- It is the mean of the values. -/
  | midpoint
  deriving DecidableEq

/-- How a controller is evaluated. -/
structure Settings where
  lookup : Lookup := .exact
  zeroHeight : ZeroHeight := .zero
  deriving DecidableEq

/-- The ways of looking up. -/
def Lookup.all : List Lookup := [.exact, .nearest, .interpolate]

/-- The tag of a way of looking up. -/
def Lookup.tag : Lookup → String
  | .exact => "exact"
  | .nearest => "nearest"
  | .interpolate => "interpolate"

/-- The policies for zero height. -/
def ZeroHeight.all : List ZeroHeight := [.zero, .midpoint]

/-- The tag of a policy for zero height. -/
def ZeroHeight.tag : ZeroHeight → String
  | .zero => "zero"
  | .midpoint => "midpoint"

end FuzzyControl
