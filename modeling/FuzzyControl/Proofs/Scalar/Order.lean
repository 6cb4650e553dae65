import FuzzyControl.Proofs.Double.Order

/-!
# Scalars of either width in order

Doubles are compared like the numbers that they stand for. Which mantissas and exponents there are
differs from one width to the other, but the comparison does not ask for them: an unpacked form has
its place by its sign, then its exponent, then its mantissa, whatever their bounds. So scalars of
both widths have a rank that they are compared by, and what is to be shown of an order is shown once.

* `place`: where an unpacked form of any width stands; `compare_eq_some_iff_place`;
* `Ranked`: scalars that are compared like their ranks, where what is not a number is compared with
  nothing; `ranked_double`, `ranked_single`: both widths are;
* `Alike`: scalars that differ in nothing but the sign of zero.
-/

namespace FuzzyControl.Scalar

open Float.Model (UnpackedFloat)
open Double (eq_notANumber compare_nan_left compare_nan_right)

/-! ## 1. Unpacked forms of any width -/

/-- The place of an unpacked form among all others: the infinities outermost, zero in the middle,
and between them the exponent before the mantissa, below zero counted backwards. -/
def place : UnpackedFloat → ℤ ×ₗ ℤ ×ₗ ℤ
  | .infinity .negative => toLex (-2, toLex (0, 0))
  | .finite .negative m e _ => toLex (-1, toLex (-e, -m))
  | .zero _ => toLex (0, toLex (0, 0))
  | .notANumber => toLex (0, toLex (0, 0))
  | .finite .positive m e _ => toLex (1, toLex (e, m))
  | .infinity .positive => toLex (2, toLex (0, 0))

theorem compare_neg_neg (a b : ℤ) : compare (-a) (-b) = (compare a b).swap := by
  rw [← cmp_eq_compare, ← cmp_eq_compare, cmp_swap]
  exact StrictAnti.cmp_map_eq (fun _ _ => neg_lt_neg) a b

theorem compare_natCast (m n : Nat) : compare (m : ℤ) n = compare m n := by
  rw [← cmp_eq_compare, ← cmp_eq_compare]
  exact Nat.strictMono_cast.cmp_map_eq m n

/-- **Unpacked forms are compared like their places.** -/
theorem compare_place {u v : UnpackedFloat} (hu : u.isNaN = false) (hv : v.isNaN = false) :
    u.compare v = some (compare (place u) (place v)) := by
  cases u with
  | notANumber => cases hu
  | infinity s =>
    cases v with
    | notANumber => cases hv
    | infinity t => cases s <;> cases t <;> rfl
    | zero t => cases s <;> rfl
    | finite t n d hn => cases s <;> cases t <;> rfl
  | zero s =>
    cases v with
    | notANumber => cases hv
    | infinity t => cases t <;> rfl
    | zero t => rfl
    | finite t n d hn => cases t <;> rfl
  | finite s m e hm =>
    cases v with
    | notANumber => cases hv
    | infinity t => cases s <;> cases t <;> rfl
    | zero t => cases s <;> rfl
    | finite t n d hn =>
      cases s <;> cases t
      · show some ((compare e d).then (compare m n)).swap =
          some ((compare (-e) (-d)).then (compare (-m : ℤ) (-n)))
        rw [compare_neg_neg, compare_neg_neg, compare_natCast, Ordering.swap_then]
      · rfl
      · rfl
      · show some ((compare e d).then (compare m n)) =
          some ((compare e d).then (compare (m : ℤ) n))
        rw [compare_natCast]

theorem compare_eq_some_iff_place {u v : UnpackedFloat} (o : Ordering) : u.compare v = some o ↔
    u.isNaN = false ∧ v.isNaN = false ∧ compare (place u) (place v) = o := by
  cases hu : u.isNaN with
  | true => simp [eq_notANumber hu, compare_nan_left]
  | false =>
    cases hv : v.isNaN with
    | true => simp [eq_notANumber hv, compare_nan_right]
    | false => simp [compare_place hu hv]

theorem any_isLE_iff (o : Option Ordering) :
    o.any (·.isLE) = true ↔ o = some .lt ∨ o = some .eq := by
  cases o with
  | none => simp
  | some o => cases o <;> simp

/-! ## 2. Ranks -/

section Ranks

variable {α L : Type} [Scalar α] [LE α] [LinearOrder L]

/-- Scalars are ranked if numbers are compared like their ranks, and what is not a number is
compared with nothing. -/
structure Ranked (rank : α → L) : Prop where
  lt_iff (x y : α) : x < y ↔ isNaN x = false ∧ isNaN y = false ∧ rank x < rank y
  le_iff (x y : α) : x ≤ y ↔ isNaN x = false ∧ isNaN y = false ∧ rank x ≤ rank y
  beq_iff (x y : α) : (x == y) = true ↔ isNaN x = false ∧ isNaN y = false ∧ rank x = rank y

/-- Equal scalars, where `0 = -0`, and what is not a number is equal to itself. -/
def Alike (x y : α) : Prop := (x == y) = true ∨ isNaN x = true ∧ isNaN y = true

namespace Ranked

variable {rank : α → L} {x y z : α}

theorem le_refl (h : Ranked rank) (hx : isNaN x = false) : x ≤ x :=
  (h.le_iff x x).2 ⟨hx, hx, le_rfl⟩

theorem le_trans (h : Ranked rank) (hxy : x ≤ y) (hyz : y ≤ z) : x ≤ z := by
  rw [h.le_iff] at hxy hyz ⊢
  exact ⟨hxy.1, hyz.2.1, hxy.2.2.trans hyz.2.2⟩

theorem le_of_lt (h : Ranked rank) (hxy : x < y) : x ≤ y := by
  rw [h.lt_iff] at hxy
  exact (h.le_iff x y).2 ⟨hxy.1, hxy.2.1, hxy.2.2.le⟩

/-- Numbers are ordered one way or the other. -/
theorem le_of_not_lt (h : Ranked rank) (hx : isNaN x = false) (hy : isNaN y = false)
    (hxy : ¬ x < y) : y ≤ x :=
  (h.le_iff y x).2 ⟨hy, hx, not_lt.1 fun hlt => hxy ((h.lt_iff x y).2 ⟨hx, hy, hlt⟩)⟩

theorem beq_of_le_of_le (h : Ranked rank) (hxy : x ≤ y) (hyx : y ≤ x) : (x == y) = true := by
  rw [h.le_iff] at hxy hyx
  exact (h.beq_iff x y).2 ⟨hxy.1, hxy.2.1, le_antisymm hxy.2.2 hyx.2.2⟩

end Ranked

end Ranks

/-! ## 3. Both widths -/

/-- Doubles are ranked by the numbers that they stand for. -/
theorem ranked_double : Ranked Double.value where
  lt_iff := Double.lt_iff
  le_iff := Double.le_iff
  beq_iff := Double.beq_iff

theorem single_lt_iff (x y : Float32) :
    x < y ↔ x.toModel.unpack.compare y.toModel.unpack = some .lt := by
  show decide (x.toModel < y.toModel) = true ↔ _
  rw [decide_eq_true_iff]
  exact beq_iff_eq

theorem single_beq_iff (x y : Float32) :
    (x == y) = true ↔ x.toModel.unpack.compare y.toModel.unpack = some .eq := by
  show (x.toModel.unpack.compare y.toModel.unpack == some .eq) = true ↔ _
  exact beq_iff_eq

theorem single_le_iff (x y : Float32) : x ≤ y ↔
    x.toModel.unpack.compare y.toModel.unpack = some .lt ∨
      x.toModel.unpack.compare y.toModel.unpack = some .eq := by
  rw [← any_isLE_iff]
  exact decide_eq_true_iff

/-- Scalars of single width are ranked by their places. -/
theorem ranked_single : Ranked fun x : Float32 => place x.toModel.unpack where
  lt_iff x y := by
    rw [single_lt_iff, compare_eq_some_iff_place, compare_lt_iff_lt]
    rfl
  le_iff x y := by
    rw [single_le_iff, compare_eq_some_iff_place, compare_eq_some_iff_place, compare_lt_iff_lt,
      compare_eq_iff_eq, le_iff_lt_or_eq, ← and_or_left, ← and_or_left]
    rfl
  beq_iff x y := by
    rw [single_beq_iff, compare_eq_some_iff_place, compare_eq_iff_eq]
    rfl

end FuzzyControl.Scalar
