import FuzzyControl.Proofs.FuzzySet.Lookup

/-!
# The nearest of any values

The walk to the nearest value asks neither for an order of the values nor for numbers. It ends at the
first place of least rounded distance, among the places that have one. A value that is not a number
has none, and so it is passed over: it counts as a place, and changes nothing else.

* `NearestAt`: the places of least rounded distance; `nearestIndex?_eq_some_iff`: the first of them
  is found;
* `exists_best`, `Best.nearestIndex?_eq`: the walk and the best place, also for a value that is near
  to nothing;
* `Best.filter`: the best place without what is not a number;
* `nearestIndex?_first`: which place is found, and when none is.
-/

namespace FuzzyControl

open Double

variable {x y : Float} {values : List Float} {best : Option (Nat × Float)} {i : Nat}

/-! ## 1. Places of least distance -/

/-- What is not a number is at no distance from anything. -/
theorem isNaN_distance_of_isNaN (h : x.isNaN = true ∨ y.isNaN = true) :
    (y - x).abs.isNaN = true := by
  rw [isNaN_abs]
  exact isNaN_sub_of_isNaN h.symm

/-- The place of a value at the least rounded distance: it has one, and no other one is less. -/
def NearestAt (x : Float) (values : List Float) (i : Nat) : Prop :=
  ∃ y, values[i]? = some y ∧ (y - x).abs.isNaN = false ∧
    ∀ z ∈ values, (z - x).abs.isNaN = false → (y - x).abs ≤ (z - x).abs

/-- The best place is the first of the nearest. -/
theorem Best.isLeast {d : Float} (h : Best x values (Option.some (i, d))) :
    IsLeast {j | NearestAt x values j} i := by
  cases h with
  | @some before after y hnumber hbefore hafter =>
    refine ⟨⟨y, by simp, hnumber, fun z hz hz' => ?_⟩, ?_⟩
    · rcases List.mem_append.1 hz with hz | hz
      · exact le_of_lt (lt_of_not_le hz' hnumber (hbefore z hz))
      · rcases List.mem_cons.1 hz with rfl | hz
        · exact le_refl hnumber
        · exact le_of_not_lt hz' hnumber (hafter z hz)
    · rintro j ⟨z, hz, -, hnearest⟩
      by_contra hlt
      rw [not_le] at hlt
      rw [List.getElem?_append_left hlt] at hz
      exact hbefore z (List.mem_of_getElem? hz) (hnearest y (by simp) hnumber)

theorem Best.not_nearestAt (h : Best x values Option.none) (i : Nat) : ¬ NearestAt x values i := by
  cases h with
  | none hall =>
    rintro ⟨y, hy, hnumber, -⟩
    rw [hall y (List.mem_of_getElem? hy)] at hnumber
    cases hnumber

/-! ## 2. The walk -/

/-- **The walk ends at the best place**, if there is one. -/
theorem exists_best (x : Float) (values : List Float) :
    ∃ best, Best x values best ∧ nearestIndex? x values = best.map Prod.fst := by
  unfold nearestIndex?
  cases hx : x.isNaN with
  | true => exact ⟨none, .none fun y _ => isNaN_distance_of_isNaN (.inl hx), rfl⟩
  | false => exact ⟨_, best_walk x values, rfl⟩

theorem nearestIndex?_eq_some_iff :
    nearestIndex? x values = some i ↔ IsLeast {j | NearestAt x values j} i := by
  obtain ⟨best, hbest, hwalk⟩ := exists_best x values
  rw [hwalk]
  match best with
  | none => exact iff_of_false nofun fun h => hbest.not_nearestAt i h.1
  | some (j, d) =>
    refine ⟨fun h => ?_, fun h => ?_⟩
    · obtain rfl : j = i := Option.some.inj h
      exact hbest.isLeast
    · exact congrArg some (hbest.isLeast.unique h)

theorem nearestIndex?_eq_none_iff :
    nearestIndex? x values = none ↔ ∀ y ∈ values, (y - x).abs.isNaN = true := by
  obtain ⟨best, hbest, hwalk⟩ := exists_best x values
  rw [hwalk]
  cases hbest with
  | none hall => exact iff_of_true rfl hall
  | some hnumber =>
    refine iff_of_false nofun fun hall => ?_
    rw [hall _ (by simp)] at hnumber
    cases hnumber

/-- There is one best place, as far as its position goes. -/
theorem Best.nearestIndex?_eq (h : Best x values best) :
    nearestIndex? x values = best.map Prod.fst := by
  match best with
  | Option.none =>
    cases h with
    | none hall => exact nearestIndex?_eq_none_iff.2 hall
  | Option.some (i, d) => exact nearestIndex?_eq_some_iff.2 h.isLeast

/-! ## 3. What is not a number -/

/-- Whether a double is a number. -/
def isNumber (y : Float) : Bool := !y.isNaN

/-- The value at a place, and which of the numbers it is. -/
def occurrence (values : List Float) (i : Nat) : Option Float × Nat :=
  (values[i]?, (values.take i).countP isNumber)

theorem isNumber_of_distance (h : (y - x).abs.isNaN = false) : isNumber y = true := by
  cases hy : y.isNaN with
  | true =>
    rw [isNaN_distance_of_isNaN (.inr hy)] at h
    cases h
  | false => rw [isNumber, hy, Bool.not_false]

/-- Without what is not a number, the best place is the same number of the list. -/
theorem Best.filter (h : Best x values best) : ∃ best', Best x (values.filter isNumber) best' ∧
    (best'.map Prod.fst).map (occurrence (values.filter isNumber)) =
      (best.map Prod.fst).map (occurrence values) := by
  cases h with
  | none hall => exact ⟨Option.none, .none fun y hy => hall y (List.mem_of_mem_filter hy), rfl⟩
  | @some before after y hnumber hbefore hafter =>
    rw [List.filter_append, List.filter_cons_of_pos (isNumber_of_distance hnumber)]
    refine ⟨_, .some hnumber (fun z hz => hbefore z (List.mem_of_mem_filter hz))
      fun z hz => hafter z (List.mem_of_mem_filter hz), ?_⟩
    simp [occurrence, List.countP_eq_length_filter]

theorem nearestIndex?_filter (x : Float) (values : List Float) :
    (nearestIndex? x (values.filter isNumber)).map (occurrence (values.filter isNumber)) =
      (nearestIndex? x values).map (occurrence values) := by
  obtain ⟨best, hbest, hwalk⟩ := exists_best x values
  obtain ⟨best', hbest', hsame⟩ := hbest.filter
  rw [hwalk, hbest'.nearestIndex?_eq, hsame]

/-- **The nearest value is found at the first place of least rounded distance**, whatever the values
are, and no place is found iff none has a rounded distance, as from what is not a number. Values that
are not numbers make no difference to which of the numbers is found. -/
theorem nearestIndex?_first (x : Float) (values : List Float) :
    (nearestIndex? x values = none ↔
      x.isNaN = true ∨ ∀ y ∈ values, (y - x).abs.isNaN = true) ∧
    (∀ i, nearestIndex? x values = some i ↔ IsLeast {j | NearestAt x values j} i) ∧
    ∀ values', values'.filter isNumber = values.filter isNumber →
      (nearestIndex? x values').map (occurrence values') =
        (nearestIndex? x values).map (occurrence values) := by
  refine ⟨?_, fun i => nearestIndex?_eq_some_iff, fun values' hsame => ?_⟩
  · rw [nearestIndex?_eq_none_iff]
    refine ⟨.inr, fun h => ?_⟩
    rcases h with hx | hall
    · exact fun y _ => isNaN_distance_of_isNaN (.inl hx)
    · exact hall
  · rw [← nearestIndex?_filter x values', hsame, nearestIndex?_filter]

/-- Two values on either side, and one that is not a number between them. -/
theorem nearestIndex?_first_gap : [1, 3].filter isNumber = [1, 0 / 0, 3].filter isNumber ∧
    (nearestIndex? 2.5 [1, 3]).map (occurrence [1, 3]) = some (some 3, 1) ∧
    (nearestIndex? 2.5 [1, 0 / 0, 3]).map (occurrence [1, 0 / 0, 3]) = some (some 3, 1) := by
  have hsame : [1, 3].filter isNumber = [1, 0 / 0, 3].filter isNumber := by decide
  have hfound : (nearestIndex? 2.5 [1, 3]).map (occurrence [1, 3]) = some (some 3, 1) := by decide
  obtain ⟨-, -, hgap⟩ := nearestIndex?_first 2.5 [1, 0 / 0, 3]
  exact ⟨hsame, hfound, (hgap [1, 3] hsame).symm.trans hfound⟩

end FuzzyControl
