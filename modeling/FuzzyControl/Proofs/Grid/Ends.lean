import FuzzyControl.Proofs.Grid.Reach

/-!
# Where a grid over an interval ends

The points of a grid over an interval ascend from its first end, so only the last of them can be
beyond the other end, or short of it. It is where rounding takes it: on the end if neither the
distance of the ends nor the step is rounded, else on either side of it. A grid with a given step
also takes in an end that it misses by a billionth of a step.

* `Spans`: what grids over an interval have in common;
* `Rising.last_between`: how far the last point is off;
* `covers_interval`: both kinds of grids, and where they end;
* `interval_passed`: grids that go beyond the end, and one that does not reach it.
-/

namespace FuzzyControl.Grid

open Double

variable {g : Grid} {first last step top : Float}

/-! ## 1. Grids over an interval -/

/-- A grid from `first` to `top` over an interval from `first` to `last`. -/
structure Spans (g : Grid) (first last top : Float) : Prop where
  /-- A walk through the grid comes by all of its points. -/
  walk : (Walk.take g.count.toNat ⟨g, 0⟩).1 = g.points
  climbs : g.Climbs first top
  /-- If any point is beyond the end, the last one is. -/
  inside_iff : (∀ x ∈ g.points, first ≤ x ∧ x ≤ last) ↔ top ≤ last
  /-- Steps that do not go beyond the end are not rounded beyond it, if their distance is exact. -/
  below : value (last - first) = value last - value first →
    g.reach (g.count - 1) ≤ value last - value first → top ≤ last
  /-- Steps that go to the end are not rounded short of it, if their distance is exact. -/
  above : value (last - first) = value last - value first →
    value last - value first ≤ g.reach (g.count - 1) → last ≤ top
  /-- All points are finite if both ends are not too large. -/
  finite : max |value first| |value last| ≤ limit / 8 → top.isFinite = true

namespace Rising

variable {C lo hi : ℚ}

/-- **A rising grid spans an interval** from its start, if its steps go less than twice as far. -/
theorem spans (h : g.Rising) (hstart : g.start = first) (hcount : 0 < g.count)
    (hfin : (last - first).isFinite = true)
    (hreach : g.reach (g.count - 1) ≤ 2 * (value last - value first) + 1) :
    g.Spans first last (g.point (g.count - 1)) := by
  subst hstart
  have hclimbs := h.climbs hcount
  refine ⟨g.take_points, hclimbs, ?_, h.point_le hfin, h.le_point hfin, fun hsize => ?_⟩
  · rw [← hclimbs.forall_le_iff]
    exact ⟨fun hall x hx => (hall x hx).2, fun hall x hx => ⟨(hclimbs.within x hx).1, hall x hx⟩⟩
  · have hdist := distance_le_max g.start last
    exact h.isFinite_point ((le_max_left _ _).trans hsize) (by linarith)

/-- **The last point is where the steps go**, but for rounding: `lo` short of the end at most, and
`hi` beyond it. -/
theorem last_between (h : g.Rising) (hstart : g.start = first) (hC : 0 ≤ C)
    (hdist : 0 ≤ value last - value first)
    (hlo : value last - value first - 3 * (2 ^ (-53 : ℤ) * (value last - value first)) ≤
      g.reach (g.count - 1) + lo)
    (hhi : g.reach (g.count - 1) ≤
      value last - value first + 4 * (2 ^ (-53 : ℤ) * (value last - value first)) + hi)
    (htwice : g.reach (g.count - 1) ≤ 2 * (value last - value first) + C)
    (hfin : (g.point (g.count - 1)).isFinite = true) :
    value last - 2 ^ (-48 : ℤ) * max |value first| |value last| - lo - C ≤
        value (g.point (g.count - 1)) ∧
      value (g.point (g.count - 1)) ≤
        value last + 2 ^ (-48 : ℤ) * max |value first| |value last| + hi + C := by
  subst hstart
  have hmax := distance_le_max g.start last
  have hfirst := le_max_left |value g.start| |value last|
  obtain ⟨hbelow, habove⟩ := abs_le.1 (h.abs_point_sub_le hfin)
  have hparts : (2 : ℚ) ^ (-48 : ℤ) = 32 * 2 ^ (-53 : ℤ) := by norm_num
  have hε : 3 * (2 : ℚ) ^ (-53 : ℤ) ≤ 1 := by norm_num
  have hε0 : (0 : ℚ) ≤ 2 ^ (-53 : ℤ) := by positivity
  rw [hparts]
  generalize (2 : ℚ) ^ (-53 : ℤ) = ε at *
  generalize max |value g.start| |value last| = M at *
  generalize hL : value last - value g.start = L at *
  -- the errors of the point and of the steps, in parts of the greater end
  have hstart : ε * |value g.start| ≤ ε * M := by gcongr
  have hsteps : ε * g.reach (g.count - 1) ≤ ε * (4 * M + C) := by
    gcongr
    linarith
  have hfar : ε * L ≤ ε * (2 * M) := by gcongr
  have hrest : 3 * ε * C ≤ C := mul_le_of_le_one_left hC hε
  have hsize : 0 ≤ ε * L := by positivity
  constructor <;> linarith

end Rising

/-! ## 2. Both kinds of grids -/

/-- Half the least double for each of so many steps, twice. -/
theorem least_count_le (n : UInt64) :
    0 ≤ 2 * (n.toNat : ℚ) * 2 ^ (-1075 : ℤ) ∧ 2 * (n.toNat : ℚ) * 2 ^ (-1075 : ℤ) ≤ 1 := by
  have hfew : (n.toNat : ℚ) ≤ 2 ^ 64 := by exact_mod_cast n.toNat_lt.le
  have hleast : (2 : ℚ) ^ (-1075 : ℤ) ≤ 2 ^ (-65 : ℤ) :=
    zpow_le_zpow_right₀ one_le_two (by norm_num)
  refine ⟨by positivity, ?_⟩
  calc 2 * (n.toNat : ℚ) * 2 ^ (-1075 : ℤ) ≤ 2 * 2 ^ 64 * 2 ^ (-65 : ℤ) := by gcongr
    _ = 1 := by norm_num

section Interval

variable (hlt : first < last) (hfin : (last - first).isFinite = true)
include hlt hfin

/-- A grid of so many points misses the end by rounding only. -/
theorem ofCount_ends {n : UInt64} (hn : 2 ≤ n) : ∃ top,
    (ofCount first last n).points.length = n.toNat ∧ (ofCount first last n).Spans first last top ∧
    (top.isFinite = true → |value top - value last| ≤
      2 ^ (-48 : ℤ) * max |value first| |value last| + n.toNat * 2 ^ (-1073 : ℤ)) := by
  have hrising := rising_ofCount hn hlt hfin
  have hstart : (ofCount first last n).start = first := rfl
  have hpositive : 0 < (ofCount first last n).count :=
    UInt64.lt_iff_toNat_lt.2 (Nat.lt_of_lt_of_le Nat.two_pos (UInt64.le_iff_toNat_le.1 hn))
  obtain ⟨hupper, htwice, hlower⟩ := reach_ofCount_bounds hn hlt hfin
  obtain ⟨hdist, -, -⟩ := distance_spec hlt hfin
  obtain ⟨hC0, hC1⟩ := least_count_le n
  have hleast : (n.toNat : ℚ) * 2 ^ (-1073 : ℤ) = 2 * (2 * n.toNat * 2 ^ (-1075 : ℤ)) := by
    rw [show (-1073 : ℤ) = -1075 + 1 + 1 by norm_num, zpow_add_one₀ two_ne_zero,
      zpow_add_one₀ two_ne_zero]
    ring
  refine ⟨_, length_points, hrising.spans hstart hpositive hfin (by linarith), fun htop => ?_⟩
  obtain ⟨hbelow, habove⟩ := hrising.last_between hstart hC0 hdist.le hlower hupper htwice htop
  rw [hleast, abs_le]
  constructor <;> linarith

/-- A grid with a given step ends within a step of the end, and hardly beyond it. -/
theorem ofStep_ends (hstep : step.isFinite = true) (hpos : 0 < step)
    (hfew : value (quotient first last step) < 2 ^ 64 - 1) : ∃ top,
    ((ofStep first last step).points.length : ℤ) = ⌊value (quotient first last step)⌋ + 1 ∧
    (ofStep first last step).Spans first last top ∧
    (top.isFinite = true →
      value last - 2 ^ (-48 : ℤ) * max |value first| |value last| - value step ≤ value top ∧
      value top ≤ value last + 2 ^ (-48 : ℤ) * max |value first| |value last| +
        2 / 10 ^ 9 * value step) := by
  have hrising := rising_ofStep hstep hpos hlt hfin
  have hstart : (ofStep first last step).start = first := by rw [ofStep_eq hpos hlt]
  obtain ⟨hcount, -, hpositive⟩ := count_ofStep hstep hpos hlt hfin hfew
  obtain ⟨hupper, htwice, hlower⟩ := reach_ofStep_bounds hstep hpos hlt hfin hfew
  obtain ⟨hdist, -, -⟩ := distance_spec hlt hfin
  refine ⟨_, by rw [length_points, hcount], hrising.spans hstart hpositive hfin (by linarith),
    fun htop => ?_⟩
  obtain ⟨hbelow, habove⟩ := hrising.last_between hstart le_rfl hdist.le
    hlower hupper (htwice.trans_eq (add_zero _).symm) htop
  rw [sub_zero] at hbelow
  rw [add_zero] at habove
  exact ⟨hbelow, habove⟩

end Interval

/-- **Grids over an interval climb from its first end, and end near the other one.** A grid of so
many points misses it by rounding only. A grid with a given step has the first point, and one more
for each step up to the end, where a step that misses it by a billionth is counted; its last point
is within a step of the end, and beyond it by two billionths of a step at most, but for rounding. -/
theorem covers_interval (first last : Float) (hlt : first < last)
    (hfin : (last - first).isFinite = true) :
    (∀ n : UInt64, 2 ≤ n → ∃ top,
      (ofCount first last n).points.length = n.toNat ∧ (ofCount first last n).Spans first last top ∧
      (top.isFinite = true → |value top - value last| ≤
        2 ^ (-48 : ℤ) * max |value first| |value last| + n.toNat * 2 ^ (-1073 : ℤ))) ∧
    ∀ step : Float, step.isFinite = true → 0 < step →
      value (quotient first last step) < 2 ^ 64 - 1 → ∃ top,
        ((ofStep first last step).points.length : ℤ) =
          ⌊value (quotient first last step)⌋ + 1 ∧
        (ofStep first last step).Spans first last top ∧
        (top.isFinite = true →
          value last - 2 ^ (-48 : ℤ) * max |value first| |value last| - value step ≤ value top ∧
          value top ≤ value last + 2 ^ (-48 : ℤ) * max |value first| |value last| +
            2 / 10 ^ 9 * value step) :=
  ⟨fun _ hn => ofCount_ends hlt hfin hn,
    fun _ hstep hpos hfew => ofStep_ends hlt hfin hstep hpos hfew⟩

/-- From zero to one in five points, and in steps of a quarter. -/
theorem covers_interval_unit : (0 : Float) < 1 ∧ (1 - 0 : Float).isFinite = true ∧
    value (quotient 0 1 0.25) < 2 ^ 64 - 1 ∧
    (∃ top, (ofCount 0 1 5).Spans 0 1 top) ∧ ∃ top, (ofStep 0 1 0.25).Spans 0 1 top := by
  have hlt : (0 : Float) < 1 := by decide
  have hfin : (1 - 0 : Float).isFinite = true := by decide
  have hfew : value (quotient 0 1 0.25) < 2 ^ 64 - 1 := by
    have hle : quotient 0 1 0.25 ≤ 5 := by decide
    have hfive : value 5 = (5 : Nat) :=
      (value_ofNat 5).2.trans (round_natCast (show 5 ≤ 2 ^ 53 by norm_num))
    refine ((le_iff _ _).1 hle).2.2.trans_lt ?_
    rw [hfive]
    norm_num
  obtain ⟨hcount, hstep⟩ := covers_interval 0 1 hlt hfin
  obtain ⟨top, -, hspans, -⟩ := hcount 5 (by decide)
  obtain ⟨top', -, hspans', -⟩ := hstep 0.25 (by decide) (by decide) hfew
  exact ⟨hlt, hfin, hfew, ⟨top, hspans⟩, top', hspans'⟩

/-- **Grids that leave their interval**: one of two points, one by the billionth, and one by the
rounded product. The last one does not reach the end. -/
theorem interval_passed :
    ((-1 : Float) < 0.1 ∧ (0.1 - -1 : Float).isFinite = true ∧
      (ofCount (-1) 0.1 2).points = [-1, 0.10000000000000009] ∧
      (0.1 : Float) < 0.10000000000000009) ∧
    (ofStep 0 0.9999999999 1).points = [0, 1] ∧
    (ofStep 0 0.3 0.1).points = [0, 0.1, 0.2, 0.30000000000000004] ∧
    (ofCount 0 1 50).points.getLast? = some 0.9999999999999999 := by
  decide

end FuzzyControl.Grid
