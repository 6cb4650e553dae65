import FuzzyControl.Proofs.FuzzySet.Validity

/-!
# The levels of a set

On a fixed grid a set is a function from places to memberships. Read as numbers, with zero where
there is no sample, the memberships of valid sets make functions that Mathlib orders and joins place
by place. The operations on sets are read off from there.

* `level`: the membership in a place, as a number;
* `sameSamples_of_level`: on one grid, the levels tell the samples;
* `level_union`, `level_intersection`, `level_complement`: the levels of what the operations give;
* `value_height_le_iff`: the height is the least number that no level exceeds.
-/

namespace FuzzyControl.FuzzySet

open Double

variable {s t u : FuzzySet}

/-! ## 1. Levels -/

/-- The membership in a place as a number; zero where there is no sample. -/
def level (s : FuzzySet) (i : Nat) : ℚ := value (s.memberships[i]?.getD 0)

theorem level_of_getElem? {i : Nat} {m : Float} (h : s.memberships[i]? = some m) :
    s.level i = value m := by
  rw [level, h]
  rfl

theorem level_of_length_le {i : Nat} (h : s.samples.length ≤ i) : s.level i = 0 := by
  rw [level, List.getElem?_eq_none (by simpa using h)]
  rfl

/-- **On one grid, sets with the same levels have equal samples.** -/
theorem sameSamples_of_level (hs : s.Valid) (ht : t.Valid) (hgrid : s.SharesGrid t)
    (h : ∀ i < s.samples.length, s.level i = t.level i) : s.SameSamples t := by
  refine sameSamples_iff.2 ⟨hgrid, List.forall₂_iff_get.2 ⟨by simpa using hgrid.length_eq, ?_⟩⟩
  intro i hi hi'
  have hlevel := h i (by simpa using hi)
  rw [level_of_getElem? (List.getElem?_eq_getElem hi),
    level_of_getElem? (List.getElem?_eq_getElem hi')] at hlevel
  exact (beq_iff _ _).2 ⟨(hs.inUnit _ (List.getElem_mem hi)).isNaN,
    (ht.inUnit _ (List.getElem_mem hi')).isNaN, hlevel⟩

/-! ## 2. The levels of what the operations give -/

/-- Joined memberships have joined levels, where the operation on doubles is one on numbers. -/
theorem level_zipMembership {f : Float → Float → Float} {op : ℚ → ℚ → ℚ} (hop : op 0 0 = 0)
    (hf : ∀ {x y}, InUnit x → InUnit y → value (f x y) = op (value x) (value y)) (hs : s.Valid)
    (ht : t.Valid) (h : zipMembership f s t = .ok u) (i : Nat) :
    u.level i = op (s.level i) (t.level i) := by
  have hgrid := sameGrid_eq_true_iff.1 ((zipMembership_isOk_iff f s t).1 ⟨u, h⟩)
  obtain ⟨-, hug, hmem⟩ := zipMembership_eq_ok h
  have hlen : u.samples.length = s.samples.length := by simpa using congrArg List.length hug
  by_cases hi : i < s.samples.length
  · have his : i < s.memberships.length := by simpa using hi
    have hit : i < t.memberships.length := by simpa [← hgrid.length_eq] using hi
    have hiu : u.memberships[i]? = some (f s.memberships[i] t.memberships[i]) := by
      rw [hmem, List.getElem?_eq_getElem (by simp [hi, ← hgrid.length_eq]), List.getElem_zipWith]
    rw [level_of_getElem? hiu, level_of_getElem? (List.getElem?_eq_getElem his),
      level_of_getElem? (List.getElem?_eq_getElem hit)]
    exact hf (hs.inUnit _ (List.getElem_mem his)) (ht.inUnit _ (List.getElem_mem hit))
  · have hi' := not_lt.1 hi
    rw [level_of_length_le (hlen ▸ hi'), level_of_length_le hi',
      level_of_length_le (hgrid.length_eq ▸ hi'), hop]

/-- **The levels of a union are the greater ones.** -/
theorem level_union (hs : s.Valid) (ht : t.Valid) (h : s.union t = .ok u) :
    u.level = s.level ⊔ t.level :=
  funext (level_zipMembership (max_self 0) (fun hx hy => value_greatest hx.isNaN hy.isNaN) hs ht h)

/-- **The levels of an intersection are the smaller ones.** -/
theorem level_intersection (hs : s.Valid) (ht : t.Valid) (h : s.intersection t = .ok u) :
    u.level = s.level ⊓ t.level :=
  funext (level_zipMembership (min_self 0) (fun hx hy => value_least hx.isNaN hy.isNaN) hs ht h)

/-- **The levels of a complement are what is left to one**, rounded. -/
theorem level_complement (hs : s.Valid) {i : Nat} (hi : i < s.samples.length) :
    s.complement.level i = Double.round (1 - s.level i) := by
  have his : i < s.memberships.length := by simpa using hi
  have hic : s.complement.memberships[i]? = some (1 - s.memberships[i]) := by
    rw [complement, memberships_mapMembership, List.getElem?_map, List.getElem?_eq_getElem his]
    rfl
  rw [level_of_getElem? hic, level_of_getElem? (List.getElem?_eq_getElem his)]
  exact (hs.inUnit _ (List.getElem_mem his)).value_one_sub

/-! ## 3. Heights -/

theorem Valid.inUnit_height (hs : s.Valid) : InUnit s.height := by
  rcases List.mem_cons.1 (mem_of_foldl greatest_eq_or s.memberships 0) with h | h
  · exact (congrArg InUnit h).mpr inUnit_zero
  · exact hs.inUnit _ h

/-- **The height is the least number that no level exceeds.** -/
theorem value_height_le_iff (hs : s.Valid) (q : ℚ) :
    value s.height ≤ q ↔ ∀ i, s.level i ≤ q := by
  constructor
  · intro h i
    have hnum : ∀ m ∈ s.memberships, m.isNaN = false := fun m hm => (hs.inUnit m hm).isNaN
    refine le_trans (value_le_foldl_greatest rfl hnum _ ?_) h
    by_cases hi : i < s.memberships.length
    · rw [List.getElem?_eq_getElem hi]
      exact List.mem_cons_of_mem _ (List.getElem_mem hi)
    · rw [List.getElem?_eq_none (not_lt.1 hi)]
      exact List.mem_cons_self
  · intro h
    rcases List.mem_cons.1 (mem_of_foldl greatest_eq_or s.memberships 0) with hm | hm
    · -- the place behind the last sample has level zero
      have h0 := h s.samples.length
      rw [level_of_length_le le_rfl] at h0
      exact (congrArg value hm).trans_le h0
    · obtain ⟨i, hi⟩ := List.mem_iff_getElem?.1 hm
      exact (level_of_getElem? hi).symm.trans_le (h i)

end FuzzyControl.FuzzySet
