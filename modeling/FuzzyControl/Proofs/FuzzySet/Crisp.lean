import FuzzyControl.Proofs.Double.Alike
import FuzzyControl.FuzzySet.Crisp

/-!
# Crisp values of sets that differ in the signs of zeros

A defuzzifier adds, multiplies, divides and compares samples. None of this tells alike doubles
apart, since it divides by nothing but a sum that is not zero, or a count.

* `rel_greatest?`, `rel_least?`: the extrema of alike lists;
* `rel_crispOf?`: what a defuzzifier makes of alike functions;
* `alike_crisp`: the crisp values of sets with alike samples.
-/

namespace FuzzyControl

open Double

/-! ## 1. Lists of alike doubles -/

section Lists

variable {xs ys : List Float}

theorem rel_greatest? (h : List.Forall₂ Alike xs ys) :
    Option.Rel Alike (greatest? xs) (greatest? ys) := by
  cases h with
  | nil => exact .none
  | cons hx hs => exact .some (List.rel_foldl (fun _ _ hx _ _ hy => hx.greatest hy) hx hs)

theorem rel_least? (h : List.Forall₂ Alike xs ys) :
    Option.Rel Alike (least? xs) (least? ys) := by
  cases h with
  | nil => exact .none
  | cons hx hs => exact .some (List.rel_foldl (fun _ _ hx _ _ hy => hx.least hy) hx hs)

theorem alike_sum (h : List.Forall₂ Alike xs ys) (z : Float) :
    Alike (xs.foldl (· + ·) z) (ys.foldl (· + ·) z) :=
  List.rel_foldl (fun _ _ hx _ _ hy => hx.add hy) (Alike.refl z) h

theorem forall₂_zip {r : Float → Float → Prop} {us vs : List Float} (h : List.Forall₂ r xs ys)
    (h' : List.Forall₂ r us vs) :
    List.Forall₂ (fun p q => r p.1 q.1 ∧ r p.2 q.2) (xs.zip us) (ys.zip vs) := by
  induction h generalizing us vs with
  | nil => exact .nil
  | cons hxy _ ih =>
    cases h' with
    | nil => exact .nil
    | cons huv h' => exact .cons ⟨hxy, huv⟩ (ih h')

end Lists

/-! ## 2. Defuzzifiers -/

namespace Defuzzifier

/-- Pairs of alike doubles. -/
def AlikePair (p q : Float × Float) : Prop := Alike p.1 q.1 ∧ Alike p.2 q.2

variable {ps qs : List (Float × Float)}

theorem alike_moments (h : List.Forall₂ AlikePair ps qs) :
    AlikePair (moments ps) (moments qs) := by
  unfold moments
  refine List.rel_foldl (P := AlikePair) (R := AlikePair) ?_ ⟨Alike.refl _, Alike.refl _⟩ h
  intro a b hab p q hpq
  exact ⟨hab.1.add (hpq.1.mul hpq.2), hab.2.add hpq.2⟩

theorem alike_valuesAt {x y : Float} (hxy : Alike x y) (h : List.Forall₂ AlikePair ps qs) :
    List.Forall₂ Alike (valuesAt x ps) (valuesAt y qs) := by
  have hfilter : List.Forall₂ AlikePair (ps.filter fun p => p.2 == x)
      (qs.filter fun q => q.2 == y) := by
    refine List.rel_filter ?_ h
    rintro p q ⟨-, hmembership⟩
    exact Bool.eq_iff_iff.1 (hmembership.beq_eq hxy)
  exact List.rel_map (fun _ _ hpq => hpq.1) hfilter

theorem alike_mean {xs ys : List Float} (h : List.Forall₂ Alike xs ys) :
    Alike (mean xs) (mean ys) := by
  have hcount : (Scalar.ofCount xs.length : Float) = Scalar.ofCount ys.length := by
    rw [h.length_eq]
  exact (alike_sum h 0).div (hcount ▸ Alike.refl _) (Or.inr hcount)

/-- **Alike functions have alike crisp values.** -/
theorem rel_crispOf? (m : Defuzzifier) {grid grid' memberships memberships' : List Float}
    (hgrid : List.Forall₂ Alike grid grid') (hmem : List.Forall₂ Alike memberships memberships') :
    Option.Rel Alike (m.crispOf? grid memberships) (m.crispOf? grid' memberships') := by
  have hsamples : List.Forall₂ AlikePair (grid.zip memberships) (grid'.zip memberships') :=
    forall₂_zip hgrid hmem
  have hgreatest := rel_greatest? hmem
  cases m with
  | centroid =>
    obtain ⟨hweighted, hweights⟩ := alike_moments hsamples
    have hzero := hweights.beq_eq (Alike.refl 0)
    show Option.Rel Alike (if (moments _).2 == 0 then none else some _)
      (if (moments _).2 == 0 then none else some _)
    rw [hzero]
    split
    · exact .none
    · rename_i hne
      exact .some (hweighted.div hweights (Or.inl (hzero.trans (Bool.eq_false_iff.2 hne))))
  | meanOfMaxima =>
    show Option.Rel Alike ((greatest? memberships).map _) ((greatest? memberships').map _)
    generalize greatest? memberships = x at hgreatest ⊢
    generalize greatest? memberships' = y at hgreatest ⊢
    cases hgreatest with
    | none => exact .none
    | some hxy => exact .some (alike_mean (alike_valuesAt hxy hsamples))
  | smallestOfMaxima =>
    show Option.Rel Alike ((greatest? memberships).bind _) ((greatest? memberships').bind _)
    generalize greatest? memberships = x at hgreatest ⊢
    generalize greatest? memberships' = y at hgreatest ⊢
    cases hgreatest with
    | none => exact .none
    | some hxy => exact rel_least? (alike_valuesAt hxy hsamples)
  | largestOfMaxima =>
    show Option.Rel Alike ((greatest? memberships).bind _) ((greatest? memberships').bind _)
    generalize greatest? memberships = x at hgreatest ⊢
    generalize greatest? memberships' = y at hgreatest ⊢
    cases hgreatest with
    | none => exact .none
    | some hxy => exact rel_greatest? (alike_valuesAt hxy hsamples)

end Defuzzifier

/-! ## 3. Sets -/

namespace FuzzySet

variable {s t : FuzzySet}

theorem alike_midpoint (h : List.Forall₂ Alike s.grid t.grid) : Alike s.midpoint t.midpoint := by
  have hcount : Float.ofNat s.grid.length = Float.ofNat t.grid.length := by rw [h.length_eq]
  exact (alike_sum h (-0.0)).div (hcount ▸ Alike.refl _) (Or.inr hcount)

/-- **Sets with alike samples have alike crisp values.** -/
theorem alike_crisp (hgrid : List.Forall₂ Alike s.grid t.grid)
    (hmem : List.Forall₂ Alike s.memberships t.memberships) (m : Defuzzifier)
    (policy : ZeroHeight) : Alike (s.crisp m policy) (t.crisp m policy) := by
  have hempty : s.samples.isEmpty = t.samples.isEmpty := by
    have hlen : s.samples.length = t.samples.length := by simpa [grid] using hgrid.length_eq
    rw [Bool.eq_iff_iff, List.isEmpty_iff_length_eq_zero, List.isEmpty_iff_length_eq_zero, hlen]
  have hrel := m.rel_crispOf? hgrid hmem
  unfold crisp
  cases hs : m.crispOf? s.grid s.memberships with
  | none =>
    cases ht : m.crispOf? t.grid t.memberships with
    | none =>
      simp only [hempty]
      split
      · exact Alike.refl 0
      · cases policy with
        | zero => exact Alike.refl 0
        | midpoint => exact alike_midpoint hgrid
    | some y =>
      rw [hs, ht] at hrel
      cases hrel
  | some x =>
    cases ht : m.crispOf? t.grid t.memberships with
    | none =>
      rw [hs, ht] at hrel
      cases hrel
    | some y =>
      rw [hs, ht] at hrel
      cases hrel with
      | some hxy => exact hxy

end FuzzySet

end FuzzyControl
