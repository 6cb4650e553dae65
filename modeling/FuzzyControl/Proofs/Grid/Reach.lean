import FuzzyControl.Proofs.Grid.Points

/-!
# How far the steps of a grid go

A grid is made from both ends of an interval, but its points are counted from the first one, and
nothing ties the last one to the other end. Four things are rounded on the way to it: the distance
of the ends, the quotient of the distance and the count or the step, the product, and the sum. Each
is rounded by one part in `2 ^ 53`, and a quotient that is very small by half the least double.

* `Rising.abs_point_sub_le`, `Rising.isFinite_point`: how far a point is off, and when it is finite;
* `abs_mul_sub_le`, `mul_le_of_quotient`, `le_mul_of_quotient`: the errors of the steps, added up;
* `reach_ofCount_bounds`: so many steps go as far as the distance of the ends;
* `reach_ofStep_bounds`: steps of a given size go up to the end, and no further than by a billionth
  of a step.
-/

namespace FuzzyControl.Grid

open Double

variable {g : Grid} {i : UInt64} {first last step top : Float}

/-! ## 1. How far a point is off -/

/-- Inside of the limit, rounding adds at most a sixteenth of it. -/
theorem abs_round_le {q : ℚ} (hq : |q| < limit) : |Double.round q| ≤ |q| + limit / 16 := by
  have hstep : (2 : ℚ) ^ (1024 - 54 : ℤ) ≤ limit / 16 := by
    rw [limit, zpow_sub₀ two_ne_zero]
    gcongr
    norm_num
  have hround := (abs_round_sub_le (by norm_num) le_rfl hq).trans hstep
  calc |Double.round q| = |q + (Double.round q - q)| := by rw [add_sub_cancel]
    _ ≤ |q| + limit / 16 := (abs_add_le _ _).trans (by gcongr)

namespace Rising

/-- The steps are rounded by one part in `2 ^ 53` at most. -/
theorem abs_round_reach_sub_le (h : g.Rising) (hreach : Double.round (g.reach i) < limit) :
    |Double.round (g.reach i) - g.reach i| ≤ 2 ^ (-53 : ℤ) * g.reach i := by
  obtain ⟨k, hk⟩ := exists_multiple h.step
  obtain ⟨n, hn⟩ := exists_int_toFloat i
  have h0 := h.reach_nonneg i
  have hmultiple : g.reach i = (k * n : ℤ) * 2 ^ (-1074 : ℤ) := by
    rw [reach, hk, hn, Int.cast_mul]
    ring
  have hlimit : |Double.round (g.reach i)| < limit := by
    rwa [abs_of_nonneg (round_nonneg h0)]
  have hpart := abs_round_sub_le_part hlimit hmultiple
  rwa [abs_of_nonneg h0] at hpart

/-- **A point is off by little**, unless it is infinite. -/
theorem abs_point_sub_le (h : g.Rising) (hfin : (g.point i).isFinite = true) :
    |value (g.point i) - (value g.start + g.reach i)| ≤
      2 ^ (-53 : ℤ) * |value g.start| + 3 * (2 ^ (-53 : ℤ) * g.reach i) := by
  have hreach : Double.round (g.reach i) < limit :=
    h.isFinite_steps_iff.1 (isFinite_of_add hfin).2
  have hsteps := h.abs_round_reach_sub_le hreach
  have hsum := abs_value_add_sub_le hfin
  rw [(h.value_steps i).2] at hsum
  have h0 := h.reach_nonneg i
  have hε : (2 : ℚ) ^ (-53 : ℤ) ≤ 1 := by norm_num
  have hε0 : (0 : ℚ) ≤ 2 ^ (-53 : ℤ) := by positivity
  change |value (g.point i) - _| ≤ _ at hsum
  generalize (2 : ℚ) ^ (-53 : ℤ) = ε at *
  generalize Double.round (g.reach i) = p at *
  generalize g.reach i = T at *
  have hsize : |value g.start + p| ≤ |value g.start| + (T + T) := by
    have hp : |p| ≤ T + T := by
      rw [show p = (p - T) + T by ring]
      refine (abs_add_le _ _).trans (add_le_add (hsteps.trans ?_) (abs_of_nonneg h0).le)
      exact mul_le_of_le_one_left h0 hε
    exact (abs_add_le _ _).trans (by linarith)
  calc |value (g.point i) - (value g.start + T)| =
        |(value (g.point i) - (value g.start + p)) + (p - T)| := by ring_nf
    _ ≤ ε * |value g.start + p| + ε * T := (abs_add_le _ _).trans (add_le_add hsum hsteps)
    _ ≤ ε * (|value g.start| + (T + T)) + ε * T := by gcongr
    _ = ε * |value g.start| + 3 * (ε * T) := by ring

/-- A point that is not too far away is finite. -/
theorem isFinite_point (h : g.Rising) (hstart : |value g.start| ≤ limit / 8)
    (hreach : g.reach i ≤ limit / 2 + 1) : (g.point i).isFinite = true := by
  have hone : 1 ≤ limit / 16 := by
    have := (two_pow_lt_limit (show 4 < 1024 by norm_num)).le
    linarith
  have hsteps : |Double.round (g.reach i)| ≤ limit / 2 + 1 + limit / 16 := by
    have hsize : |g.reach i| ≤ limit / 2 + 1 := by rwa [abs_of_nonneg (h.reach_nonneg i)]
    exact (abs_round_le (by linarith)).trans (by linarith)
  have hlimit : Double.round (g.reach i) < limit :=
    ((le_abs_self _).trans hsteps).trans_lt (by linarith)
  have hsum : |value g.start + Double.round (g.reach i)| ≤
      limit / 8 + (limit / 2 + 1 + limit / 16) :=
    (abs_add_le _ _).trans (add_le_add hstart hsteps)
  obtain ⟨hnum, hval⟩ := h.value_point hlimit
  rw [isFinite_iff, hval]
  exact ⟨hnum, (abs_round_le (by linarith)).trans_lt (by linarith)⟩

end Rising

/-! ## 2. How far the steps go -/

section Reach

variable {ε η L D h c q s e σ k : ℚ}

/-- So many steps of the distance divided by their number. -/
theorem abs_mul_sub_le (hε : 0 ≤ ε) (hε' : ε ≤ 1) (hL : 0 ≤ L) (hc : 0 < c)
    (hD : |D - L| ≤ ε * L) (hh : |h - D / c| ≤ ε * (D / c) + η) :
    |h * c - L| ≤ 3 * (ε * L) + c * η := by
  have hsteps : |h * c - D| ≤ ε * D + c * η := by
    rw [show h * c - D = (h - D / c) * c by field_simp, abs_mul, abs_of_pos hc]
    calc |h - D / c| * c ≤ (ε * (D / c) + η) * c := by gcongr
      _ = ε * D + c * η := by field_simp
  have hmost : ε * D ≤ ε * (L + L) := by
    have hone : ε * L ≤ L := mul_le_of_le_one_left hL hε'
    have := (abs_le.1 hD).2
    gcongr
    linarith
  calc |h * c - L| = |(h * c - D) + (D - L)| := by ring_nf
    _ ≤ (ε * D + c * η) + ε * L := (abs_add_le _ _).trans (add_le_add hsteps hD)
    _ ≤ 3 * (ε * L) + c * η := by linarith

/-- The steps that a rounded quotient counts do not go further, but for `σ`. -/
theorem mul_le_of_quotient (hε : 0 ≤ ε) (hε' : ε ≤ 1 / 100) (hL : 0 ≤ L) (hh : 0 < h)
    (hD : |D - L| ≤ ε * L) (hq : |q - D / h| ≤ ε * (D / h) + η)
    (hs : |s - (q + e)| ≤ ε * (q + e)) (hσ : (1 + ε) * (η + e) ≤ σ) (hk : k ≤ s) :
    h * k ≤ L + 4 * (ε * L) + σ * h := by
  have hdist := (abs_le.1 hD).2
  have hquotient : h * q ≤ (1 + ε) * D + h * η := by
    calc h * q ≤ h * (D / h + (ε * (D / h) + η)) := by
          gcongr
          linarith [(abs_le.1 hq).2]
      _ = (1 + ε) * D + h * η := by
        field_simp
        ring
  have hcube : (1 + ε) * ((1 + ε) * (L + ε * L)) ≤ L + 4 * (ε * L) := by
    have hsquare : ε * (ε * L) ≤ 1 / 100 * (ε * L) := by gcongr
    have hthird : ε * (ε * (ε * L)) ≤ 1 / 100 * (1 / 100 * (ε * L)) := by gcongr
    have : 0 ≤ ε * L := by positivity
    linarith
  have hround : (1 + ε) * D ≤ (1 + ε) * (L + ε * L) := by
    gcongr
    linarith
  calc h * k ≤ h * ((1 + ε) * (q + e)) := by
        gcongr
        linarith [(abs_le.1 hs).2]
    _ = (1 + ε) * (h * q + h * e) := by ring
    _ ≤ (1 + ε) * ((1 + ε) * (L + ε * L) + h * η + h * e) := by
        gcongr
        linarith
    _ = (1 + ε) * ((1 + ε) * (L + ε * L)) + (1 + ε) * (η + e) * h := by ring
    _ ≤ L + 4 * (ε * L) + σ * h := by gcongr

/-- As many as it does not exceed go to the end, but for rounding. -/
theorem le_mul_of_quotient (hε : 0 ≤ ε) (hε' : ε ≤ 1) (hL : 0 ≤ L) (hh : 0 < h)
    (hD : |D - L| ≤ ε * L) (hq : |q - D / h| ≤ ε * (D / h) + η)
    (hs : |s - (q + e)| ≤ ε * (q + e)) (hη : η ≤ e) (hk : s ≤ k) :
    L - 3 * (ε * L) ≤ h * k := by
  have hdist := (abs_le.1 hD).1
  have hquotient : (1 - ε) * D - h * η ≤ h * q := by
    calc (1 - ε) * D - h * η = h * (D / h - (ε * (D / h) + η)) := by
          field_simp
          ring
      _ ≤ h * q := by
        gcongr
        linarith [(abs_le.1 hq).1]
  have hnonneg : 0 ≤ 1 - ε := by linarith
  have hrest : h * η ≤ h * e := by gcongr
  have hcube : L - 3 * (ε * L) ≤ (1 - ε) * ((1 - ε) * (L - ε * L)) := by
    have hthird : 0 ≤ ε * (ε * L) * (3 - ε) :=
      mul_nonneg (mul_nonneg hε (mul_nonneg hε hL)) (by linarith)
    linarith
  calc L - 3 * (ε * L) ≤ (1 - ε) * ((1 - ε) * (L - ε * L)) := hcube
    _ ≤ (1 - ε) * ((1 - ε) * D) := by
        gcongr
        linarith
    _ ≤ (1 - ε) * (h * q + h * e) := by
        gcongr
        linarith
    _ = h * ((1 - ε) * (q + e)) := by ring
    _ ≤ h * k := by
        gcongr
        linarith [(abs_le.1 hs).1]

/-- Counted steps go twice the distance at most. -/
theorem mul_le_two_mul {n : ℕ} (hε' : ε ≤ 1 / 100) (hσ : σ ≤ 1 / 100) (hL : 0 ≤ L)
    (hh : 0 < h) (hn : h * n ≤ L + 4 * (ε * L) + σ * h) : h * n ≤ 2 * L := by
  rcases n.eq_zero_or_pos with rfl | hpos
  · rw [Nat.cast_zero, mul_zero]
    linarith
  · have hone : h ≤ h * n := le_mul_of_one_le_right hh.le (by exact_mod_cast hpos)
    have hpart : ε * L ≤ 1 / 100 * L := by gcongr
    have hrest : σ * h ≤ 1 / 100 * (h * n) := by
      calc σ * h ≤ 1 / 100 * h := by gcongr
        _ ≤ 1 / 100 * (h * n) := by gcongr
    linarith

end Reach

/-! ## 3. Grids over an interval -/

/-- The distance of two ends is twice the greater of them at most. -/
theorem distance_le_max (first last : Float) :
    value last - value first ≤ 2 * max |value first| |value last| := by
  have hlast := (le_abs_self (value last)).trans (le_max_right |value first| _)
  have hfirst := (neg_le_abs (value first)).trans (le_max_left _ |value last|)
  linarith

section Interval

variable (hlt : first < last) (hfin : (last - first).isFinite = true)
include hlt hfin

/-- The distance of the ends, exact and rounded. -/
theorem distance_spec : 0 < value last - value first ∧ 0 < value (last - first) ∧
    |value (last - first) - (value last - value first)| ≤
      2 ^ (-53 : ℤ) * (value last - value first) := by
  obtain ⟨hlast, hfirst⟩ := isFinite_of_sub hfin
  have hvalue := ((lt_iff _ _).1 hlt).2.2
  have hpos : 0 < value last - value first := sub_pos.2 hvalue
  have herror := abs_value_sub_sub_le hfin
  rw [abs_of_pos hpos] at herror
  exact ⟨hpos, value_sub_pos hfirst hlast hvalue, herror⟩

end Interval

/-! ### So many points -/

section OfCount

variable {n : UInt64} (hn : 2 ≤ n)
include hn

/-- The number of steps as a double. -/
theorem steps_spec : 1 ≤ value (n - 1).toFloat ∧ value (n - 1).toFloat ≤ 2 * n.toNat := by
  have hcount : 2 ≤ n.toNat := UInt64.le_iff_toNat_le.1 hn
  have hword : (n - 1).toNat = n.toNat - 1 :=
    UInt64.toNat_sub_of_le _ _ (UInt64.le_iff_toNat_le.2 (le_of_lt hcount))
  have hlimit := round_natCast_lt_limit (n - 1).toNat_lt
  rw [(value_toFloat _).2]
  rw [hword] at hlimit ⊢
  have hone : (1 : ℚ) ≤ (n.toNat - 1 : Nat) := by exact_mod_cast Nat.le_sub_one_of_lt hcount
  have hle : ((n.toNat - 1 : Nat) : ℚ) ≤ n.toNat := by exact_mod_cast Nat.sub_le _ _
  generalize ((n.toNat - 1 : Nat) : ℚ) = k at *
  have hround : 1 ≤ Double.round k := Double.round_one ▸ round_mono hone
  have hpos : 0 < k := one_pos.trans_le hone
  rw [← abs_of_pos (one_pos.trans_le hround)] at hlimit
  have herror := (abs_le.1 (abs_round_sub_le_size hlimit)).2
  have hparts : (2 : ℚ) ^ (-53 : ℤ) * |k| ≤ 1 / 2 * k := by
    rw [abs_of_pos hpos]
    gcongr
    norm_num
  have hleast : (2 : ℚ) ^ (-1075 : ℤ) ≤ 1 / 2 := by
    rw [show (1 / 2 : ℚ) = 2 ^ (-1 : ℤ) by norm_num]
    exact zpow_le_zpow_right₀ one_le_two (by norm_num)
  have hupper := herror.trans (add_le_add hparts hleast)
  exact ⟨hround, by linarith⟩

theorem step_ofCount : (ofCount first last n).step = (last - first) / (n - 1).toFloat := by
  have hone : 1 < n := UInt64.lt_iff_toNat_lt.2 (UInt64.le_iff_toNat_le.1 hn)
  exact if_pos hone

variable (hlt : first < last) (hfin : (last - first).isFinite = true)
include hlt hfin

/-- The step is the rounded quotient, and finite. -/
theorem value_step_ofCount : (ofCount first last n).step.isFinite = true ∧
    value (ofCount first last n).step =
      Double.round (value (last - first) / value (n - 1).toFloat) := by
  obtain ⟨-, hpos, -⟩ := distance_spec hlt hfin
  obtain ⟨hone, -⟩ := steps_spec hn
  have hcount : 0 < value (n - 1).toFloat := by linarith
  obtain ⟨hnum, hval⟩ := value_div hfin (isFinite_toFloat (n - 1)).1 hcount.ne'
  have hle : Double.round (value (last - first) / value (n - 1).toFloat) ≤
      value (last - first) := by
    rw [← round_value hfin]
    exact round_mono ((round_value hfin).symm ▸ div_le_self hpos.le hone)
  have h0 : 0 ≤ Double.round (value (last - first) / value (n - 1).toFloat) :=
    round_nonneg (div_pos hpos hcount).le
  rw [step_ofCount hn, isFinite_iff, hval, abs_of_nonneg h0]
  exact ⟨⟨hnum, hle.trans_lt (abs_lt.1 ((isFinite_iff _).1 hfin).2).2⟩, rfl⟩

theorem rising_ofCount : (ofCount first last n).Rising where
  start := (isFinite_of_sub hfin).2
  step := (value_step_ofCount hn hlt hfin).1
  nonneg := by
    obtain ⟨-, hpos, -⟩ := distance_spec hlt hfin
    obtain ⟨hone, -⟩ := steps_spec hn
    rw [(value_step_ofCount hn hlt hfin).2]
    exact round_nonneg (div_nonneg hpos.le (by linarith))

/-- **So many steps go as far as the distance of the ends**, but for rounding. -/
theorem reach_ofCount_bounds :
    (ofCount first last n).reach ((ofCount first last n).count - 1) ≤
      value last - value first + 4 * (2 ^ (-53 : ℤ) * (value last - value first)) +
        2 * n.toNat * 2 ^ (-1075 : ℤ) ∧
    (ofCount first last n).reach ((ofCount first last n).count - 1) ≤
      2 * (value last - value first) + 2 * n.toNat * 2 ^ (-1075 : ℤ) ∧
    value last - value first - 3 * (2 ^ (-53 : ℤ) * (value last - value first)) ≤
      (ofCount first last n).reach ((ofCount first last n).count - 1) +
        2 * n.toNat * 2 ^ (-1075 : ℤ) := by
  obtain ⟨hdist, hpos, herror⟩ := distance_spec hlt hfin
  obtain ⟨hone, hmany⟩ := steps_spec hn
  obtain ⟨hstep, hval⟩ := value_step_ofCount hn hlt hfin
  have hquotient : 0 < value (last - first) / value (n - 1).toFloat := div_pos hpos (by linarith)
  have hround := abs_round_sub_le_size (hval ▸ ((isFinite_iff _).1 hstep).2)
  rw [abs_of_pos hquotient, ← hval] at hround
  obtain ⟨hshort, hlong⟩ := abs_le.1
    (abs_mul_sub_le (by positivity) (by norm_num) hdist.le (by linarith) herror hround)
  have hleast : value (n - 1).toFloat * 2 ^ (-1075 : ℤ) ≤ 2 * n.toNat * 2 ^ (-1075 : ℤ) := by
    gcongr
  have hsize : 0 ≤ 2 ^ (-53 : ℤ) * (value last - value first) := by positivity
  have hpart : 3 * 2 ^ (-53 : ℤ) * (value last - value first) ≤ value last - value first :=
    mul_le_of_le_one_left hdist.le (by norm_num)
  have hreach : (ofCount first last n).reach ((ofCount first last n).count - 1) =
      value (ofCount first last n).step * value (n - 1).toFloat := rfl
  rw [hreach]
  generalize (2 : ℚ) ^ (-1075 : ℤ) = η at *
  refine ⟨?_, ?_, ?_⟩ <;> linarith

end OfCount

/-! ### A given step -/

/-- A billionth, as a double. -/
theorem value_billionth : value 1e-9 = 4835703278458517 * 2 ^ (-82 : ℤ) := by
  have hunpack : (1e-9 : Float).toModel.unpack =
      .finite .positive 4835703278458517 (-82) (by decide) := rfl
  unfold value
  rw [hunpack]
  exact one_mul _

/-- The number of steps between two ends, rounded, with a billionth added. -/
def quotient (first last step : Float) : Float := (last - first) / step + 1e-9

section OfStep

variable (hstep : step.isFinite = true) (hpos : 0 < step) (hlt : first < last)

include hpos hlt in
theorem ofStep_eq :
    ofStep first last step = ⟨first, step, (quotient first last step).toUInt64 + 1⟩ := by
  refine if_neg (not_or.2 ⟨fun hle => ?_, fun hle => not_lt_of_le hle hlt⟩)
  exact not_lt_of_le hle hpos

variable (hfin : (last - first).isFinite = true)
  (hfew : value (quotient first last step) < 2 ^ 64 - 1)
include hstep hpos hlt hfin hfew

/-- The quotient and the sum are each rounded by one part in `2 ^ 53`. -/
theorem quotient_spec : (quotient first last step).isFinite = true ∧
    0 ≤ value (quotient first last step) ∧ ∃ q, 0 ≤ q ∧
      |q - value (last - first) / value step| ≤
        2 ^ (-53 : ℤ) * (value (last - first) / value step) + 2 ^ (-1075 : ℤ) ∧
      |value (quotient first last step) - (q + value 1e-9)| ≤
        2 ^ (-53 : ℤ) * (q + value 1e-9) := by
  obtain ⟨-, hdist, -⟩ := distance_spec hlt hfin
  obtain ⟨-, -, hvalue⟩ := (lt_iff 0 step).1 hpos
  rw [value_zero] at hvalue
  have hexact : 0 < value (last - first) / value step := div_pos hdist hvalue
  obtain ⟨hnum, hval⟩ := value_div hfin hstep hvalue.ne'
  have h0 : 0 ≤ value ((last - first) / step) := hval ▸ round_nonneg hexact.le
  have hle : (0 : Float) ≤ (last - first) / step :=
    (le_iff _ _).2 ⟨rfl, hnum, value_zero ▸ h0⟩
  have hsum : (0 : Float) ≤ quotient first last step :=
    le_trans hle (le_add_of_nonneg hle (by decide)).1
  obtain ⟨-, hnum', hsum0⟩ := (le_iff _ _).1 hsum
  rw [value_zero] at hsum0
  have hfinite : (quotient first last step).isFinite = true := by
    have hlimit : (2 : ℚ) ^ 64 < limit := two_pow_lt_limit (by norm_num)
    rw [isFinite_iff, abs_of_nonneg hsum0]
    exact ⟨hnum', by linarith⟩
  have hquotient := ((isFinite_iff _).1 (isFinite_of_add hfinite).1).2
  have hdiv := abs_round_sub_le_size (hval ▸ hquotient)
  have hadd := abs_value_add_sub_le hfinite
  have hbillionth : 0 ≤ value 1e-9 := by
    rw [value_billionth]
    positivity
  rw [abs_of_pos hexact, ← hval] at hdiv
  rw [abs_of_nonneg (add_nonneg h0 hbillionth)] at hadd
  exact ⟨hfinite, hsum0, _, h0, hdiv, hadd⟩

/-- The points are those that the whole part of the quotient counts, and the first. -/
theorem count_ofStep :
    ((ofStep first last step).count.toNat : ℤ) = ⌊value (quotient first last step)⌋ + 1 ∧
    (ofStep first last step).count - 1 = (quotient first last step).toUInt64 ∧
    0 < (ofStep first last step).count := by
  obtain ⟨hfinite, h0, -⟩ := quotient_spec hstep hpos hlt hfin hfew
  have hfloor := toNat_toUInt64 hfinite h0 (by linarith)
  have hlt' : ⌊value (quotient first last step)⌋ < 2 ^ 64 - 1 :=
    Int.floor_lt.2 (by push_cast; linarith)
  have hcount : (ofStep first last step).count.toNat =
      (quotient first last step).toUInt64.toNat + 1 := by
    rw [ofStep_eq hpos hlt]
    exact toNat_add_one (by omega)
  have hsome : 0 < (ofStep first last step).count.toNat := hcount ▸ Nat.succ_pos _
  refine ⟨by rw [hcount, ← hfloor]; rfl, ?_, UInt64.lt_iff_toNat_lt.2 hsome⟩
  rw [ofStep_eq hpos hlt]
  exact UInt64.add_sub_cancel _ _

omit hfew in
theorem rising_ofStep : (ofStep first last step).Rising := by
  obtain ⟨-, -, hvalue⟩ := (lt_iff 0 step).1 hpos
  rw [ofStep_eq hpos hlt]
  exact ⟨(isFinite_of_sub hfin).2, hstep, (value_zero ▸ hvalue).le⟩

theorem reach_ofStep : (ofStep first last step).reach ((ofStep first last step).count - 1) =
    value step * (⌊value (quotient first last step)⌋ : ℤ) := by
  obtain ⟨hfinite, h0, -⟩ := quotient_spec hstep hpos hlt hfin hfew
  obtain ⟨-, hlast, -⟩ := count_ofStep hstep hpos hlt hfin hfew
  rw [hlast, ofStep_eq hpos hlt, reach, value_toFloat_toUInt64 hfinite h0 (by linarith)]

/-- **Steps of a given size are counted up to the end**, but for rounding and for a billionth. -/
theorem reach_ofStep_bounds :
    (ofStep first last step).reach ((ofStep first last step).count - 1) ≤
      value last - value first + 4 * (2 ^ (-53 : ℤ) * (value last - value first)) +
        2 / 10 ^ 9 * value step ∧
    (ofStep first last step).reach ((ofStep first last step).count - 1) ≤
      2 * (value last - value first) ∧
    value last - value first - 3 * (2 ^ (-53 : ℤ) * (value last - value first)) ≤
      (ofStep first last step).reach ((ofStep first last step).count - 1) + value step := by
  obtain ⟨hfinite, h0, q, hq0, hdiv, hadd⟩ := quotient_spec hstep hpos hlt hfin hfew
  obtain ⟨hdist, -, herror⟩ := distance_spec hlt hfin
  obtain ⟨-, -, hvalue⟩ := (lt_iff 0 step).1 hpos
  rw [value_zero] at hvalue
  have hleast : (2 : ℚ) ^ (-1075 : ℤ) ≤ 2 ^ (-82 : ℤ) :=
    zpow_le_zpow_right₀ one_le_two (by norm_num)
  have hbillionth : (1 + 2 ^ (-53 : ℤ)) * (2 ^ (-1075 : ℤ) + value 1e-9) ≤ 2 / 10 ^ 9 := by
    calc (1 + (2 : ℚ) ^ (-53 : ℤ)) * (2 ^ (-1075 : ℤ) + value 1e-9) ≤
          (1 + 2 ^ (-53 : ℤ)) * (2 ^ (-82 : ℤ) + 4835703278458517 * 2 ^ (-82 : ℤ)) := by
          rw [value_billionth]
          gcongr
      _ ≤ 2 / 10 ^ 9 := by norm_num
  have hgreater : (2 : ℚ) ^ (-1075 : ℤ) ≤ value 1e-9 := by
    rw [value_billionth]
    linarith [(by positivity : (0 : ℚ) < 2 ^ (-82 : ℤ))]
  obtain ⟨n, hn⟩ := Int.eq_ofNat_of_zero_le (Int.floor_nonneg.2 h0)
  have hε : (2 : ℚ) ^ (-53 : ℤ) ≤ 1 / 100 := by norm_num
  have hε0 : (0 : ℚ) ≤ 2 ^ (-53 : ℤ) := by positivity
  have hupper := mul_le_of_quotient hε0 hε hdist.le hvalue herror hdiv hadd hbillionth
    (Int.floor_le (value (quotient first last step)))
  have hlower := le_mul_of_quotient hε0 (hε.trans (by norm_num)) hdist.le hvalue herror hdiv hadd
    hgreater (Int.lt_floor_add_one (value (quotient first last step))).le
  rw [reach_ofStep hstep hpos hlt hfin hfew]
  refine ⟨hupper, ?_, by linarith⟩
  rw [hn, Int.cast_natCast] at hupper ⊢
  exact mul_le_two_mul hε (by norm_num) hdist.le hvalue hupper

end OfStep

end FuzzyControl.Grid
