/-!
# Scalars: the arithmetic a membership function is computed in

A membership function is sampled in floating-point numbers of one width. The operators and the
defuzzifiers work in any width, so this file fixes what they ask of it:

* `Scalar`: zero, the operations `+ * /`, the comparisons `==` and `<`, the test for not-a-number,
  and the number of a count; `Float` and `Float32` are scalars;
* `least` and `greatest`: the smaller and the larger of two numbers, where not-a-number gives way
  to the other operand, and their extension to lists, `least?` and `greatest?`;
* `clampUnit`: a double moved into the unit interval.

Sums run from left to right: floating-point addition is not associative, so the order is part of
the result.
-/

namespace FuzzyControl

/-! ## 1. Scalars -/

/-- What the operators and defuzzifiers ask of a floating-point width. -/
class Scalar (α : Type) extends Zero α, Add α, Mul α, Div α, BEq α, LT α where
  /-- The order is decidable. -/
  decLt : DecidableLT α
  /-- Whether the scalar is not a number. -/
  isNaN : α → Bool
  /-- The scalar nearest to a count. -/
  ofCount : Nat → α

attribute [reducible, instance] Scalar.decLt

instance : Scalar Float where
  decLt := inferInstance
  isNaN := Float.isNaN
  ofCount := Float.ofNat

instance : Scalar Float32 where
  decLt := inferInstance
  isNaN := Float32.isNaN
  ofCount := Float32.ofNat

/-! ## 2. The smaller and the larger of two -/

section Extrema

variable {α : Type} [Scalar α]

/-- The smaller of two scalars; not-a-number gives way to the other operand. -/
def least (a b : α) : α :=
  if Scalar.isNaN a then b
  else if Scalar.isNaN b then a
  else if b < a then b
  else a

/-- The larger of two scalars; not-a-number gives way to the other operand. -/
def greatest (a b : α) : α :=
  if Scalar.isNaN a then b
  else if Scalar.isNaN b then a
  else if a < b then b
  else a

/-- The least scalar of a list, taken from left to right; an empty list has none. -/
def least? : List α → Option α
  | [] => none
  | x :: xs => some (xs.foldl least x)

/-- The greatest scalar of a list, taken from left to right; an empty list has none. -/
def greatest? : List α → Option α
  | [] => none
  | x :: xs => some (xs.foldl greatest x)

theorem least?_eq_none_iff (xs : List α) : least? xs = none ↔ xs = [] := by
  cases xs <;> simp [least?]

theorem greatest?_eq_none_iff (xs : List α) : greatest? xs = none ↔ xs = [] := by
  cases xs <;> simp [greatest?]

end Extrema

/-! ## 3. The unit interval -/

/-- A double moved into the unit interval. Not-a-number lies on neither side and stays. -/
def clampUnit (x : Float) : Float :=
  if x < 0 then 0 else if 1 < x then 1 else x

end FuzzyControl
