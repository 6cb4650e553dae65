import FuzzyControl.Proofs.Grid.Reach

/-!
# Walks that know what is left

A walk moves its position on by one with each point that it comes by, and not at all when it has come
to the end, however often it is asked again. So the position is the number of calls up to the number
of points, it never passes the end, and what is left is the number of points that still come.

* `Walk.calls`: what so many calls bring;
* `walkAt`, `next_walkAt`, `calls_walkAt`: where a walk is after so many calls, one call from there,
  and any number of calls;
* `remaining_walkAt`, `length_take_walkAt`: what is left, and what still comes;
* `pointCount`, `toNat_count_ofStep`: how many points a grid with a given step has;
* `walks_exactSize`: the walks through both kinds of grids.
-/

namespace FuzzyControl

/-- So many calls for the next point: what they bring, one after the other, and the walk after
them. -/
def Walk.calls : Nat → Walk → List (Option Float) × Walk
  | 0, w => ([], w)
  | k + 1, w =>
      let (answer, w) := w.next
      let (answers, w) := calls k w
      (answer :: answers, w)

namespace Grid

open Double

variable {g : Grid} {first last step : Float} {k n : Nat}

/-! ## 1. A walk after so many calls -/

/-- What a call brings after `k` others: the point at this position, up to the last one. -/
def answer (g : Grid) (k : Nat) : Option Float :=
  if k < g.count.toNat then some (g.point (UInt64.ofNat k)) else none

/-- The walk after `k` calls. -/
def walkAt (g : Grid) (k : Nat) : Walk := ⟨g, UInt64.ofNat (min k g.count.toNat)⟩

theorem toNat_index_walkAt (g : Grid) (k : Nat) :
    (g.walkAt k).index.toNat = min k g.count.toNat :=
  UInt64.toNat_ofNat_of_lt' ((Nat.min_le_right _ _).trans_lt g.count.toNat_lt)

theorem index_walkAt_le (g : Grid) (k : Nat) : (g.walkAt k).index ≤ g.count := by
  rw [UInt64.le_iff_toNat_le, toNat_index_walkAt]
  exact Nat.min_le_right _ _

/-- **One call** brings the point at the position and moves on, or it brings none and stays. -/
theorem next_walkAt (g : Grid) (k : Nat) : (g.walkAt k).next = (g.answer k, g.walkAt (k + 1)) := by
  by_cases hk : k < g.count.toNat
  · rw [answer, if_pos hk, walkAt, walkAt, Nat.min_eq_left hk.le, Nat.min_eq_left hk]
    exact next_position hk
  · have hend : g.walkAt (k + 1) = g.walkAt k := by
      rw [walkAt, walkAt, Nat.min_eq_right (by omega), Nat.min_eq_right (by omega)]
    have hstop : g.count ≤ (g.walkAt k).index := by
      rw [UInt64.le_iff_toNat_le, toNat_index_walkAt]
      omega
    rw [answer, if_neg hk, hend]
    exact if_pos hstop

/-- **Any number of calls** brings the points from the position on, and then none. -/
theorem calls_walkAt (g : Grid) (k n : Nat) :
    Walk.calls n (g.walkAt k) = ((List.range' k n).map g.answer, g.walkAt (k + n)) := by
  induction n generalizing k with
  | zero => rfl
  | succ n ih =>
    rw [Walk.calls, next_walkAt]
    simp only
    rw [ih, List.range'_succ, List.map_cons, show k + 1 + n = k + (n + 1) by omega]

theorem calls_start (g : Grid) (n : Nat) :
    Walk.calls n ⟨g, 0⟩ = ((List.range n).map g.answer, g.walkAt n) := by
  have hstart : g.walkAt 0 = ⟨g, 0⟩ := by
    rw [walkAt, Nat.zero_min]
    rfl
  rw [← hstart, calls_walkAt, List.range_eq_range', Nat.zero_add]

/-- What is left, as the position is within the grid, is what the calls have not come by. -/
theorem remaining_walkAt (g : Grid) (k : Nat) :
    (g.walkAt k).remaining.toNat = g.count.toNat - min k g.count.toNat := by
  rw [← toNat_index_walkAt]
  exact UInt64.toNat_sub_of_le _ _ (g.index_walkAt_le k)

/-- **As many points still come as are left**, if so many are taken. -/
theorem length_take_walkAt (g : Grid) (k n : Nat) :
    (Walk.take n (g.walkAt k)).1.length = min n (g.count.toNat - min k g.count.toNat) := by
  induction n generalizing k with
  | zero => simp [Walk.take]
  | succ n ih =>
    rw [Walk.take, next_walkAt]
    by_cases hk : k < g.count.toNat
    · rw [answer, if_pos hk]
      simp only [List.length_cons]
      rw [ih]
      omega
    · rw [answer, if_neg hk]
      simp only [List.length_nil]
      omega

/-! ## 2. The number of points -/

/-- The points of a grid with a given step, counted without the bounds of a machine word: the first,
and one for each whole step. -/
def pointCount (first last step : Float) : Nat :=
  if step ≤ 0 ∨ last ≤ first then 1 else ⌊value (quotient first last step)⌋₊ + 1

/-- **They are counted as they are**, if they fit into a machine word. -/
theorem toNat_count_ofStep (hfits : pointCount first last step < 2 ^ 64) :
    (ofStep first last step).count.toNat = pointCount first last step := by
  unfold pointCount ofStep at *
  by_cases hone : step ≤ 0 ∨ last ≤ first
  · rw [if_pos hone, if_pos hone]
    rfl
  · rw [if_neg hone] at hfits
    rw [if_neg hone, if_neg hone]
    have hlt : value (quotient first last step) < 2 ^ 64 := by
      have hlt' := Nat.lt_of_floor_lt (show ⌊value (quotient first last step)⌋₊ < 2 ^ 64 by omega)
      exact_mod_cast hlt'
    rw [← toNat_toUInt64_eq_floor hlt] at hfits ⊢
    exact toNat_add_one hfits

/-! ## 3. Both kinds of grids -/

/-- The walks through a grid of `n` points know how many are left, whatever the number of calls. -/
structure ExactSize (g : Grid) (n : Nat) : Prop where
  /-- The first `n` calls bring the points, and every later one brings none. -/
  answers (k : Nat) : (Walk.calls k ⟨g, 0⟩).1 = (List.range k).map fun i =>
    if i < n then some (g.start + g.step * (UInt64.ofNat i).toFloat) else none
  /-- The position does not pass the end, so the difference of the two does not underflow. -/
  within (k : Nat) : (Walk.calls k ⟨g, 0⟩).2.index ≤ (Walk.calls k ⟨g, 0⟩).2.grid.count
  remaining (k : Nat) : (Walk.calls k ⟨g, 0⟩).2.remaining.toNat = n - min k n
  /-- Of any number of points that are asked for, so many still come. -/
  coming (k m : Nat) : (Walk.take m (Walk.calls k ⟨g, 0⟩).2).1.length =
    min m (Walk.calls k ⟨g, 0⟩).2.remaining.toNat

theorem exactSize (g : Grid) : g.ExactSize g.count.toNat where
  answers k := by
    rw [calls_start]
    rfl
  within k := by
    rw [calls_start]
    exact g.index_walkAt_le k
  remaining k := by
    rw [calls_start]
    exact g.remaining_walkAt k
  coming k m := by
    rw [calls_start, remaining_walkAt]
    exact g.length_take_walkAt k m

/-- **A walk through a grid of so many points, or with a given step, knows how many points are
left**, if those of the latter can be counted in a machine word. -/
theorem walks_exactSize (first last : Float) :
    (∀ n : UInt64, (ofCount first last n).ExactSize n.toNat) ∧
    ∀ step, pointCount first last step < 2 ^ 64 →
      (ofStep first last step).ExactSize (pointCount first last step) := by
  refine ⟨fun n => exactSize (ofCount first last n), fun step hfits => ?_⟩
  rw [← toNat_count_ofStep hfits]
  exact exactSize (ofStep first last step)

/-- From zero to one in steps of a quarter: five points. -/
theorem walks_exactSize_quarters : pointCount 0 1 0.25 = 5 ∧ pointCount 0 1 0.25 < 2 ^ 64 ∧
    (ofStep 0 1 0.25).ExactSize (pointCount 0 1 0.25) := by
  have hcount : pointCount 0 1 0.25 = 5 := by
    have hlower : value 4 ≤ value (quotient 0 1 0.25) := ((le_iff 4 _).1 (by decide)).2.2
    have hupper : value (quotient 0 1 0.25) < value 5 := ((lt_iff _ 5).1 (by decide)).2.2
    have hfour : value 4 = (4 : Nat) :=
      (value_ofNat 4).2.trans (round_natCast (show 4 ≤ 2 ^ 53 by norm_num))
    have hfive : value 5 = (5 : Nat) :=
      (value_ofNat 5).2.trans (round_natCast (show 5 ≤ 2 ^ 53 by norm_num))
    have hfloor : ⌊value (quotient 0 1 0.25)⌋₊ = 4 := by
      rw [Nat.floor_eq_iff' (by norm_num), ← hfour]
      refine ⟨hlower, hupper.trans_eq ?_⟩
      rw [hfive, hfour]
      norm_num
    rw [pointCount, if_neg (by decide), hfloor]
  have hfits : pointCount 0 1 0.25 < 2 ^ 64 := by
    rw [hcount]
    norm_num
  exact ⟨hcount, hfits, (walks_exactSize 0 1).2 0.25 hfits⟩

end Grid

end FuzzyControl
