import FuzzyControl.Proofs.FuzzySet.Lookup
import FuzzyControl.Proofs.FuzzySet.Union

/-!
# Cuts

A cut keeps the values whose membership reaches a threshold. A threshold that is not a number is
reached by none. Among numbers, the greater of two reaches what one of them reaches, and the lesser
what both reach; so the cuts of a union and an intersection are what they are for plain sets.

* `Reaches`: whether a membership is in a cut; `reaches_greatest_iff`, `reaches_least_iff`;
* `Ascends.any_alphaCut`: a value is in a cut iff the membership of its sample is;
* `alphaCut_zipMembership`: the cut of two joined sets, from their own cuts;
* `Layered`: how the cuts of one set lie in each other;
* `cuts_of_algebra`: cuts of unions and intersections, and of one set.
-/

namespace FuzzyControl.FuzzySet

open Double

variable {a b s t u : FuzzySet} {alpha beta : Float} {strong : Bool}

/-! ## 1. Thresholds -/

/-- Whether a membership is in a cut. -/
def Reaches (alpha : Float) (strong : Bool) (m : Float) : Prop :=
  if strong then alpha < m else alpha ≤ m

instance (alpha : Float) (strong : Bool) (m : Float) : Decidable (Reaches alpha strong m) :=
  inferInstanceAs (Decidable (if strong = true then alpha < m else alpha ≤ m))

theorem alphaCut_eq (s : FuzzySet) (alpha : Float) (strong : Bool) :
    s.alphaCut alpha strong =
      (s.samples.filter fun p => Reaches alpha strong p.membership).map Sample.value := by
  cases strong <;> rfl

/-- The greater of two memberships reaches what one of them reaches. -/
theorem reaches_greatest_iff {x y : Float} (hx : x.isNaN = false) (hy : y.isNaN = false) :
    Reaches alpha strong (greatest x y) ↔ Reaches alpha strong x ∨ Reaches alpha strong y := by
  have hg := isNaN_greatest hx hy
  cases strong with
  | true =>
    show alpha < greatest x y ↔ alpha < x ∨ alpha < y
    rw [lt_iff, lt_iff, lt_iff, value_greatest hx hy, lt_max_iff]
    tauto
  | false =>
    show alpha ≤ greatest x y ↔ alpha ≤ x ∨ alpha ≤ y
    rw [le_iff, le_iff, le_iff, value_greatest hx hy, le_max_iff]
    tauto

/-- The lesser of two memberships reaches what both reach. -/
theorem reaches_least_iff {x y : Float} (hx : x.isNaN = false) (hy : y.isNaN = false) :
    Reaches alpha strong (least x y) ↔ Reaches alpha strong x ∧ Reaches alpha strong y := by
  have hl := isNaN_least hx hy
  cases strong with
  | true =>
    show alpha < least x y ↔ alpha < x ∧ alpha < y
    rw [lt_iff, lt_iff, lt_iff, value_least hx hy, lt_min_iff]
    tauto
  | false =>
    show alpha ≤ least x y ↔ alpha ≤ x ∧ alpha ≤ y
    rw [le_iff, le_iff, le_iff, value_least hx hy, le_min_iff]
    tauto

/-! ## 2. Cuts of joined sets -/

/-- **A value is in a cut iff the membership of its sample is.** -/
theorem Ascends.any_alphaCut {p : Sample} {x : Float} (hs : s.Ascends) (hp : p ∈ s.samples)
    (hx : (p.value == x) = true) :
    ((s.alphaCut alpha strong).any fun y => y == x) =
      decide (Reaches alpha strong p.membership) := by
  rw [Bool.eq_iff_iff, decide_eq_true_iff, List.any_eq_true, alphaCut_eq]
  constructor
  · intro h
    obtain ⟨y, hy, hyx⟩ := h
    obtain ⟨q, hq, rfl⟩ := List.mem_map.1 hy
    obtain ⟨hqs, hreach⟩ := List.mem_filter.1 hq
    -- no two samples of an ascending grid have equal values
    obtain rfl := hs.eq_of_beq hqs hp (beq_trans hyx (beq_symm hx))
    exact of_decide_eq_true hreach
  · intro hreach
    exact ⟨p.value, List.mem_map_of_mem (List.mem_filter.2 ⟨hp, decide_eq_true hreach⟩), hx⟩

/-- Every sample of joined sets is joined from samples of equal value. -/
theorem exists_of_mem_zipMembership {f : Float → Float → Float}
    (h : zipMembership f s t = .ok u) {r : Sample} (hr : r ∈ u.samples) :
    ∃ p ∈ s.samples, ∃ q ∈ t.samples, (p.value == q.value) = true ∧
      r = ⟨p.value, f p.membership q.membership⟩ := by
  have hgrid := sameGrid_eq_true_iff.1 ((zipMembership_isOk_iff f s t).1 ⟨u, h⟩)
  unfold zipMembership at h
  rw [if_pos (sameGrid_eq_true_iff.2 hgrid)] at h
  obtain rfl := Except.ok.inj h
  obtain ⟨i, hi, rfl⟩ := List.mem_iff_getElem.1 hr
  obtain ⟨his, hit⟩ : i < s.samples.length ∧ i < t.samples.length := by simpa using hi
  have hvalue := (List.forall₂_iff_get.1 hgrid).2 i (by simpa using his) (by simpa using hit)
  refine ⟨s.samples[i], List.getElem_mem his, t.samples[i], List.getElem_mem hit, ?_, ?_⟩
  · simpa [grid] using hvalue
  · exact List.getElem_zipWith

/-- **The cut of two joined sets is made of their own cuts**, if a joined membership is in a cut
according to whether each of the two is. -/
theorem alphaCut_zipMembership {f : Float → Float → Float} (op : Bool → Bool → Bool)
    (hf : ∀ {x y : Float}, x.isNaN = false → y.isNaN = false →
      decide (Reaches alpha strong (f x y)) =
        op (decide (Reaches alpha strong x)) (decide (Reaches alpha strong y)))
    (ha : a.Valid) (hb : b.Valid) (h : zipMembership f a b = .ok u) :
    u.alphaCut alpha strong = a.grid.filter fun x =>
      op ((a.alphaCut alpha strong).any fun y => y == x)
        ((b.alphaCut alpha strong).any fun y => y == x) := by
  rw [← (zipMembership_eq_ok h).2.1, grid, List.filter_map, alphaCut_eq]
  refine congrArg (List.map Sample.value) (List.filter_congr fun r hr => ?_)
  obtain ⟨p, hp, q, hq, hpq, rfl⟩ := exists_of_mem_zipMembership h hr
  show decide (Reaches alpha strong (f p.membership q.membership)) = op _ _
  rw [hf (ha.inUnit_samples p hp).isNaN (hb.inUnit_samples q hq).isNaN,
    ha.ascends.any_alphaCut hp (beq_self (ha.ascends.isNaN_value hp)),
    hb.ascends.any_alphaCut hq (beq_symm hpq)]

theorem alphaCut_union (ha : a.Valid) (hb : b.Valid) (h : a.union b = .ok u) :
    u.alphaCut alpha strong = a.grid.filter fun x =>
      ((a.alphaCut alpha strong).any fun y => y == x) ||
        ((b.alphaCut alpha strong).any fun y => y == x) :=
  alphaCut_zipMembership or (fun hx hy => by
    rw [← Bool.decide_or, decide_eq_decide]
    exact reaches_greatest_iff hx hy) ha hb h

theorem alphaCut_intersection (ha : a.Valid) (hb : b.Valid) (h : a.intersection b = .ok u) :
    u.alphaCut alpha strong = a.grid.filter fun x =>
      ((a.alphaCut alpha strong).any fun y => y == x) &&
        ((b.alphaCut alpha strong).any fun y => y == x) :=
  alphaCut_zipMembership and (fun hx hy => by
    rw [← Bool.decide_and, decide_eq_decide]
    exact reaches_least_iff hx hy) ha hb h

/-! ## 3. Cuts of one set -/

theorem alphaCut_sublist_grid : (s.alphaCut alpha strong).Sublist s.grid := by
  rw [alphaCut_eq]
  exact List.filter_sublist.map Sample.value

/-- A cut is part of another one if what reaches the one threshold reaches the other. -/
theorem alphaCut_sublist {strong' : Bool}
    (h : ∀ m, Reaches alpha strong m → Reaches beta strong' m) :
    (s.alphaCut alpha strong).Sublist (s.alphaCut beta strong') := by
  rw [alphaCut_eq, alphaCut_eq]
  refine (List.monotone_filter_right _ fun p hp => ?_).map Sample.value
  exact decide_eq_true (h _ (of_decide_eq_true hp))

/-- A higher threshold is reached by less. -/
theorem reaches_of_le {m : Float} (h : alpha ≤ beta) (hm : Reaches beta strong m) :
    Reaches alpha strong m := by
  cases strong with
  | true => exact lt_of_le_of_lt h hm
  | false => exact le_trans h hm

/-- How the cuts of one set lie in its grid and in each other. -/
structure Layered (s : FuzzySet) : Prop where
  /-- A cut is a part of the grid, in its order. -/
  within : ∀ alpha strong, (s.alphaCut alpha strong).Sublist s.grid
  ascending : s.grid.Pairwise (· < ·) →
    ∀ alpha strong, (s.alphaCut alpha strong).Pairwise (· < ·)
  /-- A strong cut is part of the weak one. -/
  strong_in_weak : ∀ alpha, (s.alphaCut alpha true).Sublist (s.alphaCut alpha false)
  /-- The higher the threshold, the less is in the cut. -/
  falling : ∀ alpha beta strong, alpha ≤ beta →
    (s.alphaCut beta strong).Sublist (s.alphaCut alpha strong)
  weak_in_strong : ∀ alpha beta, alpha < beta →
    (s.alphaCut beta false).Sublist (s.alphaCut alpha true)
  support : s.support = s.alphaCut 0 true

theorem layered (s : FuzzySet) : s.Layered where
  within _ _ := alphaCut_sublist_grid
  ascending h _ _ := h.sublist alphaCut_sublist_grid
  strong_in_weak _ := alphaCut_sublist fun _ => le_of_lt
  falling _ _ _ h := alphaCut_sublist fun _ => reaches_of_le h
  weak_in_strong _ _ h := alphaCut_sublist fun _ => lt_of_lt_of_le h
  support := rfl

/-- **Cuts respect the algebra.** The cut of a union holds the values of the grid that are in one of
the cuts, and the cut of an intersection those that are in both, in the order of the grid. The cuts
of one set lie in its grid, which ascends if the set is valid, and in each other. A threshold may be
any double. -/
theorem cuts_of_algebra :
    (∀ a b : FuzzySet, a.Valid → b.Valid → a.SharesGrid b →
      ∃ u v, a.union b = .ok u ∧ a.intersection b = .ok v ∧ ∀ alpha strong,
        (u.alphaCut alpha strong = a.grid.filter fun x =>
          ((a.alphaCut alpha strong).any fun y => y == x) ||
            ((b.alphaCut alpha strong).any fun y => y == x)) ∧
        (v.alphaCut alpha strong = a.grid.filter fun x =>
          ((a.alphaCut alpha strong).any fun y => y == x) &&
            ((b.alphaCut alpha strong).any fun y => y == x))) ∧
    ∀ s : FuzzySet, s.Layered ∧ (s.Valid → s.grid.Pairwise (· < ·)) := by
  refine ⟨fun a b ha hb hgrid => ?_, fun s => ⟨s.layered, fun hs => hs.ascends.ascending⟩⟩
  have hsame := sameGrid_eq_true_iff.2 hgrid
  obtain ⟨u, hu⟩ := (zipMembership_isOk_iff greatest a b).2 hsame
  obtain ⟨v, hv⟩ := (zipMembership_isOk_iff least a b).2 hsame
  exact ⟨u, v, hu, hv, fun _ _ => ⟨alphaCut_union ha hb hu, alphaCut_intersection ha hb hv⟩⟩

def early : FuzzySet := ⟨"early", [⟨0, 1⟩, ⟨1, 0.5⟩, ⟨2, 0⟩]⟩

def late : FuzzySet := ⟨"late", [⟨-0.0, 0⟩, ⟨1, 0.5⟩, ⟨2, 1⟩]⟩

/-- At a half, the strong cut of the union leaves the middle out, and the weak cut of the
intersection holds nothing else. -/
theorem cuts_of_algebra_early : early.Valid ∧ late.Valid ∧ early.SharesGrid late ∧
    ∃ u v, early.union late = .ok u ∧ early.intersection late = .ok v ∧
      u.alphaCut 0.5 true = [0, 2] ∧ v.alphaCut 0.5 false = [1] := by
  have hearly : early.Valid := by decide
  have hlate : late.Valid := by decide
  have hgrid : early.SharesGrid late := sameGrid_eq_true_iff.1 (by decide)
  obtain ⟨u, v, hu, hv, hcuts⟩ := cuts_of_algebra.1 early late hearly hlate hgrid
  exact ⟨hearly, hlate, hgrid, u, v, hu, hv, (hcuts 0.5 true).1.trans (by decide),
    (hcuts 0.5 false).2.trans (by decide)⟩

end FuzzyControl.FuzzySet
