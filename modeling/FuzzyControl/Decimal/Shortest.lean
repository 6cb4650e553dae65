/-!
# Shortest decimals of doubles

A positive finite double stands for all the reals that round to it. This file finds the decimal
that names it with the fewest digits: the coarsest decimal grid with a point among those reals,
and on that grid the point nearest to the double, the larger one of two equally near.

* `Span`: the double between the two midpoints to its neighbours, in quarters of its last place;
* `Span.nearest?`: the point of one grid that names the double, if the grid has one;
* `Span.shortest`: the digits and the exponent on the coarsest such grid.

All arithmetic is on natural numbers, hence exact.
-/

namespace FuzzyControl.Decimal

/-! ## 1. The reals that round to a double -/

/-- A double between the midpoints to its neighbours, each of the three being a multiple of
`2 ^ unit`. The midpoints round to the double itself iff `closed`. -/
structure Span where
  low : Nat
  middle : Nat
  high : Nat
  unit : Int
  closed : Bool

namespace Span

/-- The span of `mantissa * 2 ^ exponent`, which is a double; `narrow` says that the neighbour
below is only half as far away as the one above. A midpoint rounds to the even mantissa. -/
def ofScaled (mantissa : Nat) (exponent : Int) (narrow : Bool) : Span where
  low := 4 * mantissa - (if narrow then 1 else 2)
  middle := 4 * mantissa
  high := 4 * mantissa + 2
  unit := exponent - 2
  closed := mantissa % 2 == 0

/-- The span of the double with the exponent field `field` and the fraction `fraction`. A fraction
of zero starts a new power of two, where the spacing below is half the spacing above. -/
def ofFields (field fraction : Nat) : Span :=
  if field = 0 then ofScaled fraction (-1074) false
  else ofScaled (Nat.pow 2 52 + fraction) (field - 1075) (fraction == 0 && 1 < field)

/-! ## 2. Decimal grids -/

/-- What to multiply a count of `2 ^ unit` with before it is compared with a count of
`10 ^ power`, which is multiplied with `gridScale`. -/
def spanScale (s : Span) (power : Int) : Nat :=
  Nat.pow 2 s.unit.toNat * Nat.pow 10 (-power).toNat

/-- What to multiply a count of `10 ^ power` with before it is compared with a count of
`2 ^ unit`, which is multiplied with `spanScale`. -/
def gridScale (s : Span) (power : Int) : Nat :=
  Nat.pow 2 (-s.unit).toNat * Nat.pow 10 power.toNat

/-- Whether `digits * 10 ^ power` rounds to the double. -/
def holds (s : Span) (digits : Nat) (power : Int) : Bool :=
  let point := digits * s.gridScale power
  let low := s.low * s.spanScale power
  let high := s.high * s.spanScale power
  if s.closed then decide (low ≤ point) && decide (point ≤ high)
  else decide (low < point) && decide (point < high)

/-- The multiple of `10 ^ power` that rounds to the double and is nearest to it; of two equally
near ones the larger. -/
def nearest? (s : Span) (power : Int) : Option Nat :=
  let middle := s.middle * s.spanScale power
  let step := s.gridScale power
  let below := middle / step
  match s.holds below power, s.holds (below + 1) power with
  | true, true =>
      if middle - below * step < (below + 1) * step - middle then some below else some (below + 1)
  | true, false => some below
  | false, true => some (below + 1)
  | false, false => none

/-- The first grid, from `10 ^ power` through `steps` finer ones, with a point that names the
double. The grid after the last is taken as it is. -/
def search (s : Span) : Nat → Int → Nat × Int
  | 0, power => (s.middle * s.spanScale power / s.gridScale power, power)
  | steps + 1, power =>
      match s.nearest? power with
      | some digits => (digits, power)
      | none => s.search steps (power - 1)

/-- The digits and the exponent of the shortest decimal. No double reaches `10 ^ 309`, and every
double and every midpoint is a multiple of `10 ^ (-1076)`. -/
def shortest (s : Span) : Nat × Int := s.search 1385 309

end Span

end FuzzyControl.Decimal
