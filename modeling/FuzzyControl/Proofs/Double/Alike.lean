import FuzzyControl.Proofs.Double.Order

/-!
# Doubles that differ in nothing but the sign of zero

Two doubles are alike if they are equal, where the two zeros are equal and what is not a number is
equal to itself. Alike operands have alike sums, products and quotients, as long as nothing is
divided by zero.

* `alike_iff`: the number tells a double but for the sign of zero; so it is an equivalence;
* `Alike.add`, `Alike.mul`, `Alike.div`: the operations respect it.
-/

namespace FuzzyControl.Double

open Float.Model (Format UnpackedFloat)
open Float.Model.UnpackedFloat

/-- Equal doubles, where `0 = -0`, and what is not a number is equal to itself. -/
def Alike (x y : Float) : Prop := (x == y) = true ∨ x.isNaN = true ∧ y.isNaN = true

theorem value_of_isNaN {x : Float} (h : x.isNaN = true) : value x = 0 := by
  rw [value, eq_notANumber h]
  rfl

theorem alike_iff (x y : Float) : Alike x y ↔ x.isNaN = y.isNaN ∧ value x = value y := by
  unfold Alike
  rw [beq_iff]
  cases hx : x.isNaN <;> cases hy : y.isNaN <;> simp
  rw [value_of_isNaN hx, value_of_isNaN hy]

theorem alike_equivalence : Equivalence Alike where
  refl x := (alike_iff x x).2 ⟨rfl, rfl⟩
  symm h := by
    rw [alike_iff] at h ⊢
    exact ⟨h.1.symm, h.2.symm⟩
  trans h h' := by
    rw [alike_iff] at h h' ⊢
    exact ⟨h.1.trans h'.1, h.2.trans h'.2⟩

theorem Alike.refl (x : Float) : Alike x x := alike_equivalence.refl x

/-! ## 1. Unpacked doubles -/

/-- Unpacked forms that differ in nothing but the sign of zero. -/
def SameForm (u v : UnpackedFloat) : Prop := u = v ∨ ∃ s t, u = .zero s ∧ v = .zero t

/-- Forms that compare equal are the same but for the sign of zero. -/
theorem sameForm_of_compare {u v : UnpackedFloat} (h : u.compare v = some .eq) :
    SameForm u v := by
  cases u with
  | notANumber => rw [compare_nan_left] at h; cases h
  | infinity s =>
    cases v with
    | infinity t => cases s <;> cases t <;> first | exact Or.inl rfl | cases h
    | notANumber => cases h
    | zero t => cases s <;> cases h
    | finite t n e hn => cases s <;> cases h
  | zero s =>
    cases v with
    | zero t => exact Or.inr ⟨s, t, rfl, rfl⟩
    | notANumber => cases h
    | infinity t => cases t <;> cases h
    | finite t n e hn => cases t <;> cases h
  | finite s m d hm =>
    cases v with
    | zero t => cases s <;> cases h
    | notANumber => cases s <;> cases h
    | infinity t => cases s <;> cases t <;> cases h
    | finite t n e hn =>
      left
      cases s <;> cases t <;> simp [UnpackedFloat.compare] at h
      · exact finite_eq h.2 h.1
      · exact finite_eq h.2 h.1

theorem Alike.sameForm {x y : Float} (h : Alike x y) :
    SameForm x.toModel.unpack y.toModel.unpack := by
  rcases h with h | ⟨hx, hy⟩
  · exact sameForm_of_compare ((beq_iff_compare x y).1 h)
  · exact Or.inl ((eq_notANumber hx).trans (eq_notANumber hy).symm)

/-- Doubles packed from the same form are alike. -/
theorem SameForm.alike {u v : UnpackedFloat} (h : SameForm u v) :
    Alike (.ofModel (.pack u)) (.ofModel (.pack v)) := by
  rcases h with rfl | ⟨s, t, rfl, rfl⟩
  · exact Alike.refl _
  · left
    rw [beq_iff_compare]
    show (unpack Format.binary64 (pack Format.binary64 (.zero s))).compare
      (unpack Format.binary64 (pack Format.binary64 (.zero t))) = _
    rw [unpack_pack_zero, unpack_pack_zero]
    rfl

/-! ## 2. Operations -/

theorem SameForm.add {u u' v v' : UnpackedFloat} (hu : SameForm u u') (hv : SameForm v v') :
    SameForm (UnpackedFloat.add Format.binary64 u v) (UnpackedFloat.add Format.binary64 u' v') := by
  rcases hu with rfl | ⟨s, s', rfl, rfl⟩
  · rcases hv with rfl | ⟨t, t', rfl, rfl⟩
    · exact Or.inl rfl
    · cases u with
      | zero s => cases s <;> cases t <;> cases t' <;> exact Or.inr ⟨_, _, rfl, rfl⟩
      | _ => exact Or.inl rfl
  · rcases hv with rfl | ⟨t, t', rfl, rfl⟩
    · cases v with
      | zero t => cases s <;> cases s' <;> cases t <;> exact Or.inr ⟨_, _, rfl, rfl⟩
      | _ => exact Or.inl rfl
    · cases s <;> cases s' <;> cases t <;> cases t' <;> exact Or.inr ⟨_, _, rfl, rfl⟩

theorem SameForm.mul {u u' v v' : UnpackedFloat} (hu : SameForm u u') (hv : SameForm v v') :
    SameForm (UnpackedFloat.mul Format.binary64 u v) (UnpackedFloat.mul Format.binary64 u' v') := by
  rcases hu with rfl | ⟨s, s', rfl, rfl⟩
  · rcases hv with rfl | ⟨t, t', rfl, rfl⟩
    · exact Or.inl rfl
    · cases u with
      | zero s => exact Or.inr ⟨_, _, rfl, rfl⟩
      | finite s m d hm => exact Or.inr ⟨_, _, rfl, rfl⟩
      | _ => exact Or.inl rfl
  · rcases hv with rfl | ⟨t, t', rfl, rfl⟩
    · cases v with
      | zero t => exact Or.inr ⟨_, _, rfl, rfl⟩
      | finite t n e hn => exact Or.inr ⟨_, _, rfl, rfl⟩
      | _ => exact Or.inl rfl
    · exact Or.inr ⟨_, _, rfl, rfl⟩

/-- The sign of a zero that is divided is the sign of a zero, if at all. -/
theorem SameForm.div_right {u u' : UnpackedFloat} (hu : SameForm u u') (v : UnpackedFloat) :
    SameForm (UnpackedFloat.div Format.binary64 u v) (UnpackedFloat.div Format.binary64 u' v) := by
  rcases hu with rfl | ⟨s, s', rfl, rfl⟩
  · exact Or.inl rfl
  · cases v with
    | infinity t => exact Or.inr ⟨_, _, rfl, rfl⟩
    | finite t n e hn => exact Or.inr ⟨_, _, rfl, rfl⟩
    | _ => exact Or.inl rfl

theorem Alike.add {x x' y y' : Float} (hx : Alike x x') (hy : Alike y y') :
    Alike (x + y) (x' + y') :=
  (hx.sameForm.add hy.sameForm).alike

theorem Alike.mul {x x' y y' : Float} (hx : Alike x x') (hy : Alike y y') :
    Alike (x * y) (x' * y') :=
  (hx.sameForm.mul hy.sameForm).alike

/-- Alike quotients; of the divisors it is enough that they are not zero, or equal. -/
theorem Alike.div {x x' y y' : Float} (hx : Alike x x') (hy : Alike y y')
    (h0 : (y == 0) = false ∨ y = y') : Alike (x / y) (x' / y') := by
  have hform : y.toModel.unpack = y'.toModel.unpack := by
    rcases h0 with h0 | rfl
    · rcases hy.sameForm with h | ⟨s, t, hs, -⟩
      · exact h
      · have : (y == 0) = true := by
          rw [beq_iff_compare, hs]
          rfl
        rw [this] at h0
        cases h0
    · rfl
  show Alike (.ofModel (.pack (UnpackedFloat.div _ x.toModel.unpack y.toModel.unpack)))
    (.ofModel (.pack (UnpackedFloat.div _ x'.toModel.unpack y'.toModel.unpack)))
  rw [hform]
  exact (hx.sameForm.div_right _).alike

theorem Alike.lt_iff {x x' y y' : Float} (hx : Alike x x') (hy : Alike y y') :
    x < y ↔ x' < y' := by
  rw [alike_iff] at hx hy
  rw [Double.lt_iff, Double.lt_iff, hx.1, hx.2, hy.1, hy.2]

theorem Alike.beq_eq {x x' y y' : Float} (hx : Alike x x') (hy : Alike y y') :
    (x == y) = (x' == y') := by
  rw [alike_iff] at hx hy
  rw [Bool.eq_iff_iff, beq_iff, beq_iff, hx.1, hx.2, hy.1, hy.2]

theorem Alike.greatest {x x' y y' : Float} (hx : Alike x x') (hy : Alike y y') :
    Alike (FuzzyControl.greatest x y) (FuzzyControl.greatest x' y') := by
  rw [greatest_def, greatest_def, ((alike_iff x x').1 hx).1, ((alike_iff y y').1 hy).1]
  simp only [hx.lt_iff hy]
  split_ifs <;> assumption

theorem Alike.least {x x' y y' : Float} (hx : Alike x x') (hy : Alike y y') :
    Alike (FuzzyControl.least x y) (FuzzyControl.least x' y') := by
  rw [least_def, least_def, ((alike_iff x x').1 hx).1, ((alike_iff y y').1 hy).1]
  simp only [hy.lt_iff hx]
  split_ifs <;> assumption

end FuzzyControl.Double
