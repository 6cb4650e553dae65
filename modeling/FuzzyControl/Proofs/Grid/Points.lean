import FuzzyControl.Grid
import FuzzyControl.Proofs.Double.Counts

/-!
# The points of a grid

A point is the start with so many steps added to it, the product rounded and then the sum. Rounding
keeps the order. So the points of a grid that starts at a finite double and does not step downwards
are in ascending order from the start on, some of them equal perhaps, and only the last ones
infinite. All that remains to be known of such a grid is where it ends.

* `mem_points_iff`, `head?_points`, `getLast?_points`: the points as a list; `take_points`: they are
  what a walk comes by;
* `Rising`: the grids that do not step downwards; `Rising.point_le_point`: their points ascend;
* `Climbs`: a grid from its first point to its last; `Climbs.forall_le_iff`: when all of it is
  below a bound;
* `Rising.point_le`, `Rising.le_point`: a point on one side of an end that is exactly so far away.
-/

namespace FuzzyControl.Grid

open Double

variable {g : Grid} {i j : UInt64} {x first last top : Float}

/-! ## 1. The list of points -/

/-- Positions fit into a machine word. -/
theorem toNat_position {n : Nat} (hn : n < g.count.toNat) : (UInt64.ofNat n).toNat = n :=
  UInt64.toNat_ofNat_of_lt' (hn.trans g.count.toNat_lt)

theorem toNat_add_one {w : UInt64} (h : w.toNat + 1 < 2 ^ 64) : (w + 1).toNat = w.toNat + 1 := by
  rw [UInt64.toNat_add]
  exact Nat.mod_eq_of_lt h

theorem toNat_last (h : 0 < g.count) : (g.count - 1).toNat = g.count.toNat - 1 := by
  have hcount : 0 < g.count.toNat := UInt64.lt_iff_toNat_lt.1 h
  have hle : (1 : UInt64) ≤ g.count := UInt64.le_iff_toNat_le.2 hcount
  exact UInt64.toNat_sub_of_le _ _ hle

theorem length_points : g.points.length = g.count.toNat := by
  rw [points, List.length_map, List.length_range]

theorem mem_points_iff : x ∈ g.points ↔ ∃ i < g.count, x = g.point i := by
  unfold points
  rw [List.mem_map]
  constructor
  · intro h
    obtain ⟨n, hn, rfl⟩ := h
    rw [List.mem_range] at hn
    exact ⟨UInt64.ofNat n, UInt64.lt_iff_toNat_lt.2 (by rwa [toNat_position hn]), rfl⟩
  · intro h
    obtain ⟨i, hi, rfl⟩ := h
    exact ⟨i.toNat, List.mem_range.2 (UInt64.lt_iff_toNat_lt.1 hi), by rw [UInt64.ofNat_toNat]⟩

theorem head?_points (h : 0 < g.count) : g.points.head? = some (g.point 0) := by
  have hcount : g.count.toNat ≠ 0 := (UInt64.lt_iff_toNat_lt.1 h).ne'
  unfold points
  rw [List.head?_map, List.head?_range, if_neg hcount]
  rfl

theorem getLast?_points (h : 0 < g.count) : g.points.getLast? = some (g.point (g.count - 1)) := by
  have hcount : g.count.toNat ≠ 0 := (UInt64.lt_iff_toNat_lt.1 h).ne'
  unfold points
  rw [List.getLast?_map, List.getLast?_range, if_neg hcount, Option.map_some, ← toNat_last h,
    UInt64.ofNat_toNat]

/-- Before the end, a walk comes by the point at its position and goes on to the next one. -/
theorem next_position {n : Nat} (hn : n < g.count.toNat) :
    Walk.next ⟨g, UInt64.ofNat n⟩ =
      (some (g.point (UInt64.ofNat n)), ⟨g, UInt64.ofNat (n + 1)⟩) := by
  have hbefore : ¬ g.count ≤ UInt64.ofNat n := by
    rw [UInt64.le_iff_toNat_le, toNat_position hn]
    exact Nat.not_le.2 hn
  have hnext : UInt64.ofNat n + 1 = UInt64.ofNat (n + 1) := (UInt64.ofNat_add n 1).symm
  rw [Walk.next, if_neg hbefore, hnext]

/-- So it comes by one point after the other. -/
theorem take_positions {n k : Nat} (hn : n + k ≤ g.count.toNat) :
    Walk.take k ⟨g, UInt64.ofNat n⟩ =
      ((List.range' n k).map fun i => g.point (UInt64.ofNat i), ⟨g, UInt64.ofNat (n + k)⟩) := by
  induction k generalizing n with
  | zero => rfl
  | succ k ih =>
    rw [Walk.take, next_position (by omega)]
    simp only
    rw [ih (by omega), List.range'_succ, List.map_cons, show n + 1 + k = n + (k + 1) by omega]

/-- **A walk through all of a grid comes by its points.** -/
theorem take_points (g : Grid) : (Walk.take g.count.toNat ⟨g, 0⟩).1 = g.points := by
  have htake := take_positions (show 0 + g.count.toNat ≤ g.count.toNat by omega)
  rw [points, List.range_eq_range']
  exact congrArg Prod.fst htake

/-! ## 2. Grids that do not step downwards -/

/-- A grid rises if it starts at a finite double and its step is finite and not below zero. -/
structure Rising (g : Grid) : Prop where
  start : g.start.isFinite = true
  step : g.step.isFinite = true
  nonneg : 0 ≤ value g.step

/-- How far the steps up to a position go, before anything is rounded. -/
def reach (g : Grid) (i : UInt64) : ℚ := value g.step * value i.toFloat

namespace Rising

theorem reach_nonneg (h : g.Rising) (i : UInt64) : 0 ≤ g.reach i :=
  mul_nonneg h.nonneg (isFinite_toFloat i).2

theorem reach_mono (h : g.Rising) (hij : i ≤ j) : g.reach i ≤ g.reach j := by
  refine mul_le_mul_of_nonneg_left ?_ h.nonneg
  rw [(value_toFloat i).2, (value_toFloat j).2]
  exact round_mono (by exact_mod_cast UInt64.le_iff_toNat_le.1 hij)

theorem value_steps (h : g.Rising) (i : UInt64) : (g.step * i.toFloat).isNaN = false ∧
    value (g.step * i.toFloat) = Double.round (g.reach i) :=
  value_mul h.step (isFinite_toFloat i).1

/-- The steps are finite as long as they are rounded to something finite. -/
theorem isFinite_steps_iff (h : g.Rising) :
    (g.step * i.toFloat).isFinite = true ↔ Double.round (g.reach i) < limit := by
  obtain ⟨hnum, hval⟩ := h.value_steps i
  rw [isFinite_iff, hval, abs_of_nonneg (round_nonneg (h.reach_nonneg i))]
  exact and_iff_right hnum

/-- A point that can be reached in finite steps is the rounded sum. -/
theorem value_point (h : g.Rising) (hreach : Double.round (g.reach i) < limit) :
    (g.point i).isNaN = false ∧
      value (g.point i) = Double.round (value g.start + Double.round (g.reach i)) := by
  rw [← (h.value_steps i).2]
  exact value_add h.start (h.isFinite_steps_iff.2 hreach)

/-- Any other point is infinite. -/
theorem value_point_infinite (h : g.Rising) (hreach : ¬ Double.round (g.reach i) < limit) :
    (g.point i).isNaN = false ∧ value (g.point i) = limit := by
  obtain ⟨hnum, hval⟩ := h.value_steps i
  refine value_add_infinite h.start hnum ?_ (h.isFinite_steps_iff.not.2 hreach)
  rw [hval]
  exact round_nonneg (h.reach_nonneg i)

theorem isNaN_point (h : g.Rising) (i : UInt64) : (g.point i).isNaN = false := by
  by_cases hreach : Double.round (g.reach i) < limit
  · exact (h.value_point hreach).1
  · exact (h.value_point_infinite hreach).1

/-- **The points ascend.** -/
theorem point_le_point (h : g.Rising) (hij : i ≤ j) : g.point i ≤ g.point j := by
  refine (le_iff _ _).2 ⟨h.isNaN_point i, h.isNaN_point j, ?_⟩
  have hround : Double.round (g.reach i) ≤ Double.round (g.reach j) := round_mono (h.reach_mono hij)
  by_cases hreach : Double.round (g.reach j) < limit
  · rw [(h.value_point (hround.trans_lt hreach)).2, (h.value_point hreach).2]
    exact round_mono (by linarith)
  · rw [(h.value_point_infinite hreach).2]
    exact value_le_limit _

/-- The first point is the start, up to the sign of a zero. -/
theorem point_zero (h : g.Rising) : (g.point 0 == g.start) = true := by
  have hreach : g.reach 0 = 0 := by
    rw [reach, show (0 : UInt64).toFloat = 0 from rfl, value_zero, mul_zero]
  obtain ⟨hnum, hval⟩ := h.value_point (i := 0) (by rw [hreach, round_zero]; exact limit_pos)
  refine (beq_iff _ _).2 ⟨hnum, isNaN_of_isFinite h.start, ?_⟩
  rw [hval, hreach, round_zero, add_zero, round_value h.start]

/-! ## 3. Points on one side of an end -/

section Exact

variable (h : g.Rising) (hfin : (last - g.start).isFinite = true)
  (hexact : value (last - g.start) = value last - value g.start)

include h hfin hexact

/-- Where the distance to the end is exact, rounding takes no point beyond the end. -/
theorem point_le (hreach : g.reach i ≤ value last - value g.start) : g.point i ≤ last := by
  obtain ⟨hlast, -⟩ := isFinite_of_sub hfin
  have hsteps : Double.round (g.reach i) ≤ value last - value g.start := by
    rw [← hexact, ← round_value hfin, hexact]
    exact round_mono hreach
  have hlimit : Double.round (g.reach i) < limit := by
    rw [← hexact] at hsteps
    exact hsteps.trans_lt (abs_lt.1 ((isFinite_iff _).1 hfin).2).2
  obtain ⟨hnum, hval⟩ := h.value_point hlimit
  refine (le_iff _ _).2 ⟨hnum, isNaN_of_isFinite hlast, ?_⟩
  rw [hval, ← round_value hlast]
  exact round_mono (by linarith)

/-- And it takes back no point that has come to the end. -/
theorem le_point (hreach : value last - value g.start ≤ g.reach i) : last ≤ g.point i := by
  obtain ⟨hlast, -⟩ := isFinite_of_sub hfin
  have hsteps : value last - value g.start ≤ Double.round (g.reach i) := by
    rw [← hexact, ← round_value hfin, hexact]
    exact round_mono hreach
  refine (le_iff _ _).2 ⟨isNaN_of_isFinite hlast, h.isNaN_point i, ?_⟩
  by_cases hlimit : Double.round (g.reach i) < limit
  · rw [(h.value_point hlimit).2, ← round_value hlast]
    exact round_mono (by linarith)
  · rw [(h.value_point_infinite hlimit).2]
    exact value_le_limit last

end Exact

end Rising

/-! ## 4. From the first point to the last -/

/-- A grid climbs from `first` to `top` if its points ascend, `first` equals the first of them, and
`top` is the last. -/
structure Climbs (g : Grid) (first top : Float) : Prop where
  head : ∃ x, g.points.head? = some x ∧ (x == first) = true
  last : g.points.getLast? = some top
  ascending : g.points.Pairwise (· ≤ ·)
  within : ∀ x ∈ g.points, first ≤ x ∧ x ≤ top

theorem Rising.pairwise_points (h : g.Rising) : g.points.Pairwise (· ≤ ·) := by
  unfold points
  rw [List.pairwise_map]
  refine List.pairwise_lt_range.imp_of_mem fun {n m} hn hm hnm => ?_
  rw [List.mem_range] at hn hm
  refine h.point_le_point (UInt64.le_iff_toNat_le.2 ?_)
  rw [toNat_position hn, toNat_position hm]
  exact hnm.le

/-- **A rising grid climbs** from its start to its last point. -/
theorem Rising.climbs (h : g.Rising) (hcount : 0 < g.count) :
    g.Climbs g.start (g.point (g.count - 1)) where
  head := ⟨_, head?_points hcount, h.point_zero⟩
  last := getLast?_points hcount
  ascending := h.pairwise_points
  within := by
    intro x hx
    obtain ⟨i, hi, rfl⟩ := mem_points_iff.1 hx
    have hlast : i ≤ g.count - 1 := by
      rw [UInt64.le_iff_toNat_le, toNat_last hcount]
      exact Nat.le_sub_one_of_lt (UInt64.lt_iff_toNat_lt.1 hi)
    have hfirst : g.start ≤ g.point 0 := le_of_beq (beq_symm h.point_zero)
    exact ⟨le_trans hfirst (h.point_le_point UInt64.zero_le), h.point_le_point hlast⟩

/-- All points are up to a bound iff the last one is. -/
theorem Climbs.forall_le_iff (h : g.Climbs first top) :
    (∀ x ∈ g.points, x ≤ last) ↔ top ≤ last :=
  ⟨fun hall => hall top (List.mem_of_getLast? h.last),
    fun htop x hx => le_trans (h.within x hx).2 htop⟩

end FuzzyControl.Grid
