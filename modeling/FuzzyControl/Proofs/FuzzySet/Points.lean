import FuzzyControl.Proofs.FuzzySet.Lookup

/-!
# Sets made of points

Points can be given in any order. Sorting them puts the smaller values first and leaves points of
equal value in the order given, so it is only for equal values that the neighbours do not ascend.
Points with distinct values have one order, whatever the order they come in.

* `ascending_sortByValue`, `filter_sortByValue`: points are sorted, and equal ones keep their order;
* `Distinct`: no two values are equal; `strictly_sortByValue_iff`: when sorted points strictly
  ascend;
* `ofPoints_eq_ok_iff`, `ofPoints_eq_of_perm`: which points make a set, and that it is one set;
* `made_iff_distinct`: sets made of points, and of functions over grids.
-/

namespace FuzzyControl

open Double

/-- No two of the values are equal, where the two zeros are equal. -/
def Distinct (values : List Float) : Prop := values.Pairwise fun x y => (x == y) = false

instance (values : List Float) : Decidable (Distinct values) :=
  inferInstanceAs (Decidable (List.Pairwise _ _))

theorem distinct_iff_of_perm {xs ys : List Float} (h : xs.Perm ys) : Distinct xs ↔ Distinct ys := by
  refine h.pairwise_iff fun {x y} hxy => ?_
  rw [Bool.eq_false_iff] at hxy ⊢
  exact fun hyx => hxy (beq_symm hyx)

namespace Sample

/-! ## 1. Points in order -/

section Sorting

variable {p : Sample} {points points' qs : List Sample}

theorem descending_insertDescending (hp : p.value.isNaN = false)
    (hqs : ∀ q ∈ qs, q.value.isNaN = false) (h : qs.Pairwise fun a b => b.value ≤ a.value) :
    (insertDescending p qs).Pairwise fun a b => b.value ≤ a.value := by
  induction qs with
  | nil => exact List.pairwise_singleton _ _
  | cons q rest ih =>
    obtain ⟨hq, hrest⟩ := List.pairwise_cons.1 h
    unfold insertDescending
    split
    · rename_i hlt
      have hsorted := ih (fun b hb => hqs b (List.mem_cons_of_mem _ hb)) hrest
      refine List.pairwise_cons.2 ⟨fun b hb => ?_, hsorted⟩
      rcases List.mem_cons.1 ((insertDescending_perm p rest).mem_iff.1 hb) with rfl | hb
      · exact le_of_lt hlt
      · exact hq b hb
    · rename_i hnot
      have hle : q.value ≤ p.value := le_of_not_lt hp (hqs q List.mem_cons_self) hnot
      refine List.pairwise_cons.2 ⟨fun b hb => ?_, h⟩
      rcases List.mem_cons.1 hb with rfl | hb
      · exact hle
      · exact le_trans (hq b hb) hle

/-- **Points at numbers are put in ascending order.** -/
theorem ascending_sortByValue (hpoints : ∀ p ∈ points, p.value.isNaN = false) :
    (sortByValue points).Pairwise fun a b => a.value ≤ b.value := by
  have hsorted : (∀ q ∈ points.foldl (fun sorted p => insertDescending p sorted) [],
        q.value.isNaN = false) ∧
      (points.foldl (fun sorted p => insertDescending p sorted) []).Pairwise
        fun a b => b.value ≤ a.value := by
    refine List.foldlRecOn points _ (motive := fun sorted : List Sample =>
      (∀ q ∈ sorted, q.value.isNaN = false) ∧ sorted.Pairwise fun a b => b.value ≤ a.value)
      ⟨List.forall_mem_nil _, .nil⟩ ?_
    intro sorted ih p hp
    obtain ⟨hnumbers, hdescending⟩ := ih
    refine ⟨fun q hq => ?_, descending_insertDescending (hpoints p hp) hnumbers hdescending⟩
    rcases List.mem_cons.1 ((insertDescending_perm p sorted).mem_iff.1 hq) with rfl | hq
    · exact hpoints q hp
    · exact hnumbers q hq
  exact List.pairwise_reverse.2 hsorted.2

theorem filter_insertDescending (v : Float) (p : Sample) (qs : List Sample) :
    (insertDescending p qs).filter (fun q => q.value == v) =
      (p :: qs).filter fun q => q.value == v := by
  induction qs with
  | nil => rfl
  | cons q rest ih =>
    unfold insertDescending
    split
    · rename_i hlt
      -- what the point is put behind has another value
      have hother : (p.value == v) = true → (q.value == v) = false := by
        intro hp
        rw [Bool.eq_false_iff]
        intro hq
        exact not_lt_of_le (le_of_beq (beq_trans hq (beq_symm hp))) hlt
      rw [List.filter_cons, ih]
      cases hp : p.value == v with
      | false => simp [List.filter_cons, hp]
      | true => simp [hp, hother hp]
    · rfl

/-- **Points of equal value keep the order in which they are given.** -/
theorem filter_sortByValue (v : Float) (points : List Sample) :
    (sortByValue points).filter (fun p => p.value == v) =
      points.filter fun p => p.value == v := by
  have hfold : ∀ ps acc : List Sample,
      (ps.foldl (fun sorted p => insertDescending p sorted) acc).filter (fun p => p.value == v) =
        (ps.filter fun p => p.value == v).reverse ++ acc.filter fun p => p.value == v := by
    intro ps
    induction ps with
    | nil => exact fun acc => rfl
    | cons p ps ih =>
      intro acc
      rw [List.foldl_cons, ih, filter_insertDescending]
      cases hp : p.value == v with
      | false => simp [hp]
      | true => simp [hp]
  unfold sortByValue
  rw [List.filter_reverse, hfold points [], List.filter_nil, List.append_nil, List.reverse_reverse]

/-- Sorted points strictly ascend iff their values are distinct. -/
theorem strictly_sortByValue_iff (hpoints : ∀ p ∈ points, p.value.isNaN = false) :
    ((sortByValue points).map Sample.value).Pairwise (· < ·) ↔
      Distinct (points.map Sample.value) := by
  have hsorted := ascending_sortByValue hpoints
  rw [← distinct_iff_of_perm ((sortByValue_perm points).map _), Distinct, List.pairwise_map,
    List.pairwise_map]
  constructor
  · exact fun h => (hsorted.and h).imp fun hab => (lt_iff_beq_eq_false hab.1).1 hab.2
  · exact fun h => (hsorted.and h).imp fun hab => (lt_iff_beq_eq_false hab.1).2 hab.2

/-- **Points with distinct values have one order**, whatever the order they are given in. -/
theorem sortByValue_eq_of_perm (hpoints : ∀ p ∈ points, p.value.isNaN = false)
    (hdistinct : Distinct (points.map Sample.value)) (hperm : points'.Perm points) :
    sortByValue points' = sortByValue points := by
  have hpoints' : ∀ p ∈ points', p.value.isNaN = false :=
    fun p hp => hpoints p (hperm.mem_iff.1 hp)
  have hdistinct' := (distinct_iff_of_perm (hperm.map Sample.value)).2 hdistinct
  have hstrictly := List.pairwise_map.1 ((strictly_sortByValue_iff hpoints).2 hdistinct)
  have hstrictly' := List.pairwise_map.1 ((strictly_sortByValue_iff hpoints').2 hdistinct')
  have hsame : (sortByValue points').Perm (sortByValue points) :=
    (sortByValue_perm points').trans (hperm.trans (sortByValue_perm points).symm)
  refine hsame.eq_of_pairwise (fun a b _ _ hab hba => ?_) hstrictly' hstrictly
  exact absurd hab (not_lt_of_le (le_of_lt hba))

end Sorting

end Sample

/-! ## 2. The unit interval -/

/-- What is moved into the unit interval is in it, unless it is not a number. -/
theorem inUnit_clampUnit_iff {x : Float} : InUnit (clampUnit x) ↔ x.isNaN = false := by
  unfold clampUnit
  split_ifs with hbelow habove
  · exact iff_of_true inUnit_zero ((lt_iff _ _).1 hbelow).1
  · exact iff_of_true inUnit_one ((lt_iff _ _).1 habove).2.1
  · refine ⟨InUnit.isNaN, fun hx => ⟨le_of_not_lt hx rfl hbelow, le_of_not_lt rfl hx habove⟩⟩

/-! ## 3. Sets -/

namespace FuzzySet

variable {name : String} {points points' : List Sample} {s : FuzzySet}

/-- Points at numbers are valid when sorted iff their memberships are in the unit interval and
their values are distinct. -/
theorem valid_sortByValue_iff (hpoints : ∀ p ∈ points, p.value.isNaN = false) :
    Sample.Valid (Sample.sortByValue points) ↔
      (∀ p ∈ points, InUnit p.membership) ∧ Distinct (points.map Sample.value) := by
  have hmem : ∀ p, p ∈ Sample.sortByValue points ↔ p ∈ points :=
    fun p => (Sample.sortByValue_perm points).mem_iff
  have hgrades : (∀ p ∈ Sample.sortByValue points, p.isGrade = true) ↔
      ∀ p ∈ points, InUnit p.membership := by
    simp only [hmem, Sample.isGrade_iff]
    exact forall₂_congr fun p hp => and_iff_right (hpoints p hp)
  unfold Sample.Valid
  rw [hgrades, Sample.descent?_eq_none_iff fun p hp => hpoints p ((hmem p).1 hp),
    Sample.strictly_sortByValue_iff hpoints]

theorem ofPoints_eq_ok_iff (hpoints : ∀ p ∈ points, p.value.isNaN = false) :
    ofPoints name points = .ok s ↔
      ((∀ p ∈ points, InUnit p.membership) ∧ Distinct (points.map Sample.value)) ∧
        s = ⟨name, Sample.sortByValue points⟩ := by
  rw [← valid_sortByValue_iff hpoints]
  exact ofSamples_eq_ok_iff name _ s

/-- **Points in another order make the same set.** -/
theorem ofPoints_eq_of_perm (hpoints : ∀ p ∈ points, p.value.isNaN = false)
    (hperm : points'.Perm points) (h : ofPoints name points = .ok s) :
    ofPoints name points' = .ok s := by
  obtain ⟨⟨-, hdistinct⟩, -⟩ := (ofPoints_eq_ok_iff hpoints).1 h
  rw [← h]
  unfold ofPoints
  rw [Sample.sortByValue_eq_of_perm hpoints hdistinct hperm]

/-- **A function over a grid of numbers makes a set** iff the grid is distinct and the function
gives numbers on it. -/
theorem ofFunction_eq_ok_iff {grid : List Float} {f : Float → Float}
    (hgrid : ∀ x ∈ grid, x.isNaN = false) :
    ofFunction name grid f = .ok s ↔ (Distinct grid ∧ ∀ x ∈ grid, (f x).isNaN = false) ∧
      s = ⟨name, Sample.sortByValue (grid.map fun x => ⟨x, clampUnit (f x)⟩)⟩ := by
  have hvalues : (grid.map fun x => (⟨x, clampUnit (f x)⟩ : Sample)).map Sample.value = grid := by
    simp [Function.comp_def]
  have hpoints : ∀ p ∈ grid.map fun x => (⟨x, clampUnit (f x)⟩ : Sample), p.value.isNaN = false :=
    List.forall_mem_map.2 hgrid
  have hgrades : (∀ p ∈ grid.map fun x => (⟨x, clampUnit (f x)⟩ : Sample), InUnit p.membership) ↔
      ∀ x ∈ grid, (f x).isNaN = false := by
    simp only [List.forall_mem_map, inUnit_clampUnit_iff]
  unfold ofFunction
  rw [ofPoints_eq_ok_iff hpoints, hvalues, hgrades, and_comm (a := Distinct grid)]

/-- **Sets made of points, and of functions over grids.** Points at numbers make a set iff their
memberships are in the unit interval and no two of their values are equal. The set consists of the
points in ascending order, so the order in which they are given does not matter. A function makes a
set over a grid of distinct numbers iff it gives numbers, and at each value of the grid the set has
what the function gives, moved into the unit interval. -/
theorem made_iff_distinct (name : String) :
    (∀ points : List Sample, (∀ p ∈ points, p.value.isNaN = false) →
      ((∃ s, ofPoints name points = .ok s) ↔
        (∀ p ∈ points, InUnit p.membership) ∧ Distinct (points.map Sample.value)) ∧
      ∀ s, ofPoints name points = .ok s → s.name = name ∧ s.samples.Perm points ∧
        s.grid.Pairwise (· < ·) ∧
        ∀ points', points'.Perm points → ofPoints name points' = .ok s) ∧
    ∀ (grid : List Float) (f : Float → Float), (∀ x ∈ grid, x.isNaN = false) →
      ((∃ s, ofFunction name grid f = .ok s) ↔
        Distinct grid ∧ ∀ x ∈ grid, (f x).isNaN = false) ∧
      ∀ s, ofFunction name grid f = .ok s →
        ∀ x ∈ grid, s.membershipAt x .exact = .ok (clampUnit (f x)) := by
  refine ⟨fun points hpoints => ⟨?_, fun s hs => ?_⟩, fun grid f hgrid => ⟨?_, fun s hs => ?_⟩⟩
  · simp only [ofPoints_eq_ok_iff hpoints, exists_and_left, exists_eq, and_true]
  · obtain ⟨⟨-, hdistinct⟩, rfl⟩ := (ofPoints_eq_ok_iff hpoints).1 hs
    exact ⟨rfl, Sample.sortByValue_perm points,
      (Sample.strictly_sortByValue_iff hpoints).2 hdistinct,
      fun points' hperm => ofPoints_eq_of_perm hpoints hperm hs⟩
  · simp only [ofFunction_eq_ok_iff hgrid, exists_and_left, exists_eq, and_true]
  · intro x hx
    have hvalid : s.Valid := valid_of_resample hs
    obtain ⟨-, rfl⟩ := (ofFunction_eq_ok_iff hgrid).1 hs
    have hmem : (⟨x, clampUnit (f x)⟩ : Sample) ∈
        Sample.sortByValue (grid.map fun x => ⟨x, clampUnit (f x)⟩) :=
      (Sample.sortByValue_perm _).mem_iff.2 (List.mem_map_of_mem hx)
    exact hvalid.ascends.exact_eq_ok_iff.2 ⟨_, hmem, beq_self (hgrid x hx), rfl⟩

/-- A valley whose points are given in two orders, and a ramp that is cut off on both sides. -/
theorem made_iff_distinct_valley :
    (∀ p ∈ ([⟨1, 0.5⟩, ⟨-1, 1⟩, ⟨0, 0⟩] : List Sample), p.value.isNaN = false) ∧
    (∃ s, ofPoints "Valley" [⟨1, 0.5⟩, ⟨-1, 1⟩, ⟨0, 0⟩] = .ok s ∧
      ofPoints "Valley" [⟨0, 0⟩, ⟨1, 0.5⟩, ⟨-1, 1⟩] = .ok s) ∧
    (∀ x ∈ [2, -1, 0.5], x.isNaN = false) ∧
    ∃ s, ofFunction "Ramp" [2, -1, 0.5] (fun x => x) = .ok s ∧
      s.membershipAt 2 .exact = .ok 1 ∧ s.membershipAt (-1) .exact = .ok 0 := by
  have hpoints : ∀ p ∈ ([⟨1, 0.5⟩, ⟨-1, 1⟩, ⟨0, 0⟩] : List Sample), p.value.isNaN = false := by
    decide
  have hgrid : ∀ x ∈ [2, -1, 0.5], x.isNaN = false := by decide
  obtain ⟨hmade, hsame⟩ := (made_iff_distinct "Valley").1 _ hpoints
  obtain ⟨hsampled, hlookup⟩ := (made_iff_distinct "Ramp").2 _ (fun x => x) hgrid
  obtain ⟨s, hs⟩ := hmade.2 ⟨by unfold InUnit; decide, by decide⟩
  obtain ⟨t, ht⟩ := hsampled.2 ⟨by decide, hgrid⟩
  have hperm : List.Perm ([⟨0, 0⟩, ⟨1, 0.5⟩, ⟨-1, 1⟩] : List Sample)
      [⟨1, 0.5⟩, ⟨-1, 1⟩, ⟨0, 0⟩] := by decide
  exact ⟨hpoints, ⟨s, hs, (hsame s hs).2.2.2 _ hperm⟩, hgrid, t, ht,
    hlookup t ht 2 (by simp), hlookup t ht (-1) (by simp)⟩

end FuzzySet

end FuzzyControl
