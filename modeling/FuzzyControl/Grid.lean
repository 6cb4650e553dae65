/-!
# Evenly spaced grids

A grid is given by its first value, the step between neighbours and the number of points. A `Walk`
goes through its points one at a time and knows how many are left.

* `Grid.ofCount`: so many points from one end of an interval to the other;
* `Grid.ofStep`: points a given step apart that do not pass the end;
* `Walk.next`, `Walk.remaining` and `Walk.take`.

Counts and positions are machine words.
-/

namespace FuzzyControl

/-! ## 1. Grids -/

/-- An evenly spaced grid. -/
structure Grid where
  start : Float
  step : Float
  count : UInt64

namespace Grid

/-- So many points from `first` to `last`, both included; a single point stands at `first`. -/
def ofCount (first last : Float) (count : UInt64) : Grid where
  start := first
  step := if 1 < count then (last - first) / (count - 1).toFloat else 0
  count := count

/-- Points from `first` upwards, `step` apart, up to `last` if it is reached. A step that is not
positive, and an end that is not above the start, leave one point. The quotient is rounded down
after a billionth is added, so that a step which divides the interval up to rounding reaches its
end. -/
def ofStep (first last step : Float) : Grid :=
  if step ≤ 0 ∨ last ≤ first then ofCount first first 1
  else ⟨first, step, ((last - first) / step + 1e-9).toUInt64 + 1⟩

/-- The point at a position. -/
def point (g : Grid) (index : UInt64) : Float := g.start + g.step * index.toFloat

/-- All points, in order. -/
def points (g : Grid) : List Float :=
  (List.range g.count.toNat).map fun i => g.point (UInt64.ofNat i)

end Grid

/-! ## 2. Walks -/

/-- A walk through the points of a grid, and the position it has come to. -/
structure Walk where
  grid : Grid
  index : UInt64 := 0

namespace Walk

/-- The next point, none at the end, and the walk after it. At the end the walk stays there. -/
def next (w : Walk) : Option Float × Walk :=
  if w.grid.count ≤ w.index then (none, w)
  else (some (w.grid.point w.index), { w with index := w.index + 1 })

/-- The number of points that are left. -/
def remaining (w : Walk) : UInt64 := w.grid.count - w.index

/-- Up to `n` points, and the walk after them. -/
def take : Nat → Walk → List Float × Walk
  | 0, w => ([], w)
  | n + 1, w =>
      match w.next with
      | (none, w) => ([], w)
      | (some x, w) =>
          let (xs, w) := take n w
          (x :: xs, w)

end Walk

end FuzzyControl
