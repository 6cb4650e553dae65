import FuzzyControl.Proofs.Double.Means

/-!
# How far a sum is off

A rounded number is off by at most one part in `2 ^ 53` of its size, or by half the least step below
the doubles of full precision. A rounded sum has no such second part: doubles on the least grid add
up exactly. Along a list of approximate terms these errors add up to so many parts of all sizes.

* `abs_round_sub_le_size`, `abs_round_sub_le_part`: one rounding, and the rounding of a sum;
* `round_le_size`: the same from one side, up to infinity;
* `abs_total_sub_le`: how far a sum from left to right is off;
* `round_div_le`: how far a quotient of two such sums is above what it would be.
-/

namespace FuzzyControl.Double

/-! ## 1. One rounding -/

/-- What is not rounded to infinity is rounded by at most half a step of its grid. -/
theorem abs_round_sub_le_grid {q : ℚ} (h : |round q| < limit) :
    |round q - q| ≤ 1 / 2 * 2 ^ gridExponent |q| := by
  have hpos : ∀ p : ℚ, 0 ≤ p → round p < limit →
      |round p - p| ≤ 1 / 2 * 2 ^ gridExponent p := by
    intro p hp hlimit
    rw [← roundToGrid_eq_round hp hlimit]
    exact abs_roundToGrid_sub_le p
  rw [← round_abs] at h
  have hsize := hpos |q| (abs_nonneg q) h
  rcases le_total 0 q with hq | hq
  · rwa [abs_of_nonneg hq] at hsize ⊢
  · rw [abs_of_nonpos hq] at hsize ⊢
    rwa [round_neg, neg_sub_neg, abs_sub_comm] at hsize

/-- Above the least grid, half a step is at most one part in `2 ^ 53`. -/
theorem half_grid_le_part {q : ℚ} (hq : 0 < q) (hgrid : gridExponent q ≠ -1074) :
    1 / 2 * 2 ^ gridExponent q ≤ 2 ^ (-53 : ℤ) * q := by
  have hsteps := le_div_grid hq hgrid
  rw [le_div_iff₀ (by positivity)] at hsteps
  have hparts : (2 : ℚ) ^ (-53 : ℤ) * 2 ^ 52 = 1 / 2 := by norm_num
  calc 1 / 2 * (2 : ℚ) ^ gridExponent q = 2 ^ (-53 : ℤ) * (2 ^ 52 * 2 ^ gridExponent q) := by
        rw [← mul_assoc, hparts]
    _ ≤ 2 ^ (-53 : ℤ) * q := by gcongr

theorem half_grid_le {q : ℚ} (hq : 0 < q) :
    1 / 2 * 2 ^ gridExponent q ≤ 2 ^ (-53 : ℤ) * q + 2 ^ (-1075 : ℤ) := by
  by_cases hgrid : gridExponent q = -1074
  · have hhalf : 1 / 2 * (2 : ℚ) ^ (-1074 : ℤ) = 2 ^ (-1075 : ℤ) := by
      rw [show (-1074 : ℤ) = -1075 + 1 by norm_num, zpow_add_one₀ two_ne_zero]
      ring
    rw [hgrid, hhalf]
    exact le_add_of_nonneg_left (by positivity)
  · exact (half_grid_le_part hq hgrid).trans (le_add_of_nonneg_right (by positivity))

/-- **A number is rounded by at most one part in `2 ^ 53`, or half the least step**, unless it is
rounded to infinity. -/
theorem abs_round_sub_le_size {q : ℚ} (h : |round q| < limit) :
    |round q - q| ≤ 2 ^ (-53 : ℤ) * |q| + 2 ^ (-1075 : ℤ) := by
  rcases eq_or_ne q 0 with rfl | hq
  · rw [round_zero, sub_zero, abs_zero, mul_zero, zero_add]
    positivity
  · exact (abs_round_sub_le_grid h).trans (half_grid_le (abs_pos.2 hq))

/-- **A sum of doubles is rounded by at most one part in `2 ^ 53`**, unless it is rounded to
infinity: on the least grid it is not rounded at all. -/
theorem abs_round_sub_le_part {q : ℚ} (h : |round q| < limit) {k : ℤ}
    (hk : q = k * 2 ^ (-1074 : ℤ)) : |round q - q| ≤ 2 ^ (-53 : ℤ) * |q| := by
  rcases eq_or_ne q 0 with rfl | hq
  · rw [round_zero, sub_zero, abs_zero, mul_zero]
  · have hpos := abs_pos.2 hq
    by_cases hgrid : gridExponent |q| = -1074
    · have hsize : |q| = (|k| : ℤ) * 2 ^ (-1074 : ℤ) := by
        rw [hk, abs_mul, Int.cast_abs, abs_of_pos (by positivity : (0 : ℚ) < 2 ^ (-1074 : ℤ))]
      have hexact : round q = q := by
        rw [← round_abs] at h
        have hround := roundToGrid_eq_round hpos.le h
        rw [roundToGrid_of_multiple hgrid hsize] at hround
        rcases le_total 0 q with h0 | h0
        · rwa [abs_of_nonneg h0, eq_comm] at hround
        · rw [abs_of_nonpos h0, round_neg] at hround
          linarith
      rw [hexact, sub_self, abs_zero]
      positivity
    · exact (abs_round_sub_le_grid h).trans (half_grid_le_part hpos hgrid)

/-- From one side, the error of a rounding to infinity is as small, unless it started there. -/
theorem round_le_size {q : ℚ} (h : -limit ≤ q) :
    round q ≤ q + 2 ^ (-53 : ℤ) * |q| + 2 ^ (-1075 : ℤ) := by
  rcases lt_trichotomy q 0 with hneg | rfl | hpos
  · have hp : 0 < -q := by linarith
    have hhalf := half_grid_le hp
    have hround := (abs_le.1 (abs_roundToGrid_sub_le (-q))).1
    have herror : 0 ≤ 1 / 2 * (2 : ℚ) ^ gridExponent (-q) := by positivity
    have hmin : -q - 1 / 2 * 2 ^ gridExponent (-q) ≤ min (roundToGrid (-q)) limit :=
      le_min (by linarith) (by linarith)
    rw [abs_of_neg hneg, round, if_pos hneg]
    generalize (2 : ℚ) ^ (-53 : ℤ) = ε at *
    generalize (2 : ℚ) ^ (-1075 : ℤ) = η at *
    linarith
  · rw [round_zero, abs_zero, mul_zero, zero_add, zero_add]
    positivity
  · have hhalf := half_grid_le hpos
    have hround := (abs_le.1 (abs_roundToGrid_sub_le q)).2
    have hle := round_le_roundToGrid hpos.le
    rw [abs_of_pos hpos]
    generalize (2 : ℚ) ^ (-53 : ℤ) = ε at *
    generalize (2 : ℚ) ^ (-1075 : ℤ) = η at *
    linarith

/-! ## 2. Products and sums -/

/-- The product with a membership is finite. -/
theorem abs_value_mul_sub_le {x m : Float} (hx : x.isFinite = true) (hm : InUnit m) :
    (x * m).isFinite = true ∧ |value (x * m) - value x * value m| ≤
      2 ^ (-53 : ℤ) * |value x * value m| + 2 ^ (-1075 : ℤ) := by
  obtain ⟨-, h0, h1⟩ := (inUnit_iff m).1 hm
  obtain ⟨hnum, hval⟩ := value_mul hx (isFinite_of_inUnit hm)
  have hsize : |value x * value m| ≤ |value x| := by
    rw [abs_mul, abs_of_nonneg h0]
    exact mul_le_of_le_one_right (abs_nonneg _) h1
  have hlimit : |round (value x * value m)| < limit := by
    calc |round (value x * value m)| = round |value x * value m| := (round_abs _).symm
      _ ≤ round |value x| := round_mono hsize
      _ = |value x| := by rw [round_abs, round_value hx]
      _ < limit := ((isFinite_iff x).1 hx).2
  rw [isFinite_iff, hval]
  exact ⟨⟨hnum, hlimit⟩, abs_round_sub_le_size hlimit⟩

/-- The sum of two finite doubles, unless it is infinite. -/
theorem abs_value_add_sub_le {x y : Float} (h : (x + y).isFinite = true) :
    |value (x + y) - (value x + value y)| ≤ 2 ^ (-53 : ℤ) * |value x + value y| := by
  obtain ⟨hx, hy⟩ := isFinite_of_add h
  obtain ⟨k, hk⟩ := exists_multiple hx
  obtain ⟨l, hl⟩ := exists_multiple hy
  have hlimit := ((isFinite_iff _).1 h).2
  rw [(value_add hx hy).2] at hlimit ⊢
  exact abs_round_sub_le_part hlimit (k := k + l) (by rw [hk, hl, Int.cast_add, add_mul])

/-- The difference of two finite doubles, unless it is infinite. -/
theorem abs_value_sub_sub_le {x y : Float} (h : (x - y).isFinite = true) :
    |value (x - y) - (value x - value y)| ≤ 2 ^ (-53 : ℤ) * |value x - value y| := by
  obtain ⟨hx, hy⟩ := isFinite_of_sub h
  obtain ⟨k, hk⟩ := exists_multiple hx
  obtain ⟨l, hl⟩ := exists_multiple hy
  have hlimit := ((isFinite_iff _).1 h).2
  rw [(value_sub hx hy).2] at hlimit ⊢
  exact abs_round_sub_le_part hlimit (k := k - l) (by rw [hk, hl, Int.cast_sub, sub_mul])

/-- One more term of size `w` at most, which is itself off by one part in so many and by `η`. -/
theorem sum_error_step {ε η n S E x g W w r : ℚ} (hε : 0 ≤ ε) (hη : 0 ≤ η) (hn : 0 ≤ n)
    (hsmall : ε * (3 * n + 1) ≤ 1) (hw : 0 ≤ w) (hE : |E| ≤ W) (hg : |g| ≤ w)
    (hS : |S - E| ≤ 3 * n * (ε * W) + 2 * n * η) (hx : |x - g| ≤ ε * w + η)
    (hr : |r - (S + x)| ≤ ε * |S + x|) :
    |r - (E + g)| ≤ 3 * (n + 1) * (ε * (W + w)) + 2 * (n + 1) * η := by
  have hW : 0 ≤ W := (abs_nonneg E).trans hE
  have hexact : |E + g| ≤ W + w := (abs_add_le E g).trans (add_le_add hE hg)
  obtain ⟨d, hd⟩ : ∃ d, d = 3 * n * (ε * W) + 2 * n * η + (ε * w + η) := ⟨_, rfl⟩
  have hfar : |(S + x) - (E + g)| ≤ d := by
    rw [hd, show (S + x) - (E + g) = (S - E) + (x - g) by ring]
    exact (abs_add_le _ _).trans (add_le_add hS hx)
  have hsize : |S + x| ≤ W + w + d := by
    rw [show S + x = (E + g) + ((S + x) - (E + g)) by ring]
    exact (abs_add_le _ _).trans (add_le_add hexact hfar)
  have hround : |r - (S + x)| ≤ ε * (W + w) + ε * d :=
    hr.trans (by rw [← mul_add]; gcongr)
  -- the error of the errors is less than one more of each
  have hagain : ε * d ≤ ε * W + ε * w + η := by
    have h₁ : ε * (3 * n + 1) * (ε * W) ≤ 1 * (ε * W) := by gcongr
    have h₂ : ε * (3 * n + 1) * (ε * w) ≤ 1 * (ε * w) := by gcongr
    have h₃ : ε * (3 * n + 1) * η ≤ 1 * η := by gcongr
    have h₄ : 0 ≤ ε * (ε * W) := by positivity
    have h₅ : 0 ≤ ε * n * (ε * w) := by positivity
    have h₆ : 0 ≤ ε * n * η := by positivity
    rw [hd]
    linarith
  have hmany : 0 ≤ n * (ε * w) := by positivity
  have hone : 0 ≤ ε * W := by positivity
  calc |r - (E + g)| = |(r - (S + x)) + ((S + x) - (E + g))| := by rw [sub_add_sub_cancel]
    _ ≤ ε * (W + w) + ε * d + d := (abs_add_le _ _).trans (add_le_add hround hfar)
    _ ≤ ε * (W + w) + (ε * W + ε * w + η) + d := by linarith
    _ ≤ 3 * (n + 1) * (ε * (W + w)) + 2 * (n + 1) * η := by
      rw [hd]
      linarith

/-- **How far a sum from left to right is off.** Each term is off by at most one part in `2 ^ 53` of
its size and by `η`; the sum is off by at most three such parts of all sizes for each term, and
twice `η` for each. -/
theorem abs_total_sub_le {α : Type} {ps : List α} {f : α → Float} {g w : α → ℚ} {η : ℚ}
    (hη : 0 ≤ η) (hw : ∀ p ∈ ps, |g p| ≤ w p)
    (hf : ∀ p ∈ ps, |value (f p) - g p| ≤ 2 ^ (-53 : ℤ) * w p + η) (hlen : ps.length ≤ 2 ^ 50)
    (hfin : (total (ps.map f)).isFinite = true) :
    |(ps.map g).sum| ≤ (ps.map w).sum ∧ |value (total (ps.map f)) - (ps.map g).sum| ≤
      3 * ps.length * (2 ^ (-53 : ℤ) * (ps.map w).sum) + 2 * ps.length * η := by
  induction ps using List.reverseRecOn with
  | nil =>
    have hzero : value (total []) = 0 := value_zero
    simp [hzero]
  | append_singleton ps p ih =>
    simp only [List.map_append, List.map_singleton, total_concat, List.length_append,
      List.length_singleton, List.sum_append, List.sum_singleton, Nat.cast_add_one] at hfin hlen ⊢
    obtain ⟨hsize, hsum⟩ := ih (fun q hq => hw q (by simp [hq])) (fun q hq => hf q (by simp [hq]))
      (by omega) (isFinite_of_add hfin).1
    have hlast := hw p (by simp)
    have hcount : (2 : ℚ) ^ (-53 : ℤ) * (3 * ps.length + 1) ≤ 1 := by
      have hlen' : (ps.length : ℚ) + 1 ≤ 2 ^ 50 := by exact_mod_cast hlen
      calc (2 : ℚ) ^ (-53 : ℤ) * (3 * ps.length + 1) ≤ 2 ^ (-53 : ℤ) * (3 * 2 ^ 50) := by
            gcongr
            linarith
        _ ≤ 1 := by norm_num
    exact ⟨(abs_add_le _ _).trans (add_le_add hsize hlast),
      sum_error_step (by positivity) hη (by positivity) hcount ((abs_nonneg _).trans hlast) hsize
        hlast hsum (hf p (by simp)) (abs_value_add_sub_le hfin)⟩

/-! ## 3. Quotients of sums -/

section Quotient

variable {ε η n N W E M b U h : ℚ}

/-- A weighted mean of at most `b`, of which the sums are off. -/
theorem div_le_of_sums (hε : 0 ≤ ε) (hη : 0 ≤ η) (hn : 0 ≤ n) (hsmall : 3 * n * ε ≤ 1 / 4)
    (hh : 0 < h) (hW : h ≤ W) (hM : 0 ≤ M) (hb : |b| ≤ U) (hE : E ≤ b * M)
    (hN : |N - E| ≤ 3 * n * (ε * (U * M)) + 2 * n * η) (hmass : |W - M| ≤ 3 * n * (ε * M)) :
    N / W ≤ b + (8 * n * ε * U + 2 * n * η / h) := by
  have hU : 0 ≤ U := (abs_nonneg b).trans hb
  have hWpos : 0 < W := hh.trans_le hW
  have hquarter : 3 * n * (ε * M) ≤ 1 / 4 * M := by
    rw [← mul_assoc]
    gcongr
  have hmost : 3 * M ≤ 4 * W := by linarith [(abs_le.1 hmass).1]
  have hshift : b * M ≤ b * W + U * (3 * n * (ε * M)) := by
    have : b * (M - W) ≤ U * (3 * n * (ε * M)) := by
      calc b * (M - W) ≤ |b * (M - W)| := le_abs_self _
        _ = |b| * |W - M| := by rw [abs_mul, abs_sub_comm]
        _ ≤ U * (3 * n * (ε * M)) := by gcongr
    linarith
  have hscale : n * ε * U * (3 * M) ≤ n * ε * U * (4 * W) := by gcongr
  have hleast : 2 * n * η ≤ 2 * n * η / h * W := by
    rw [div_mul_eq_mul_div, le_div_iff₀ hh]
    gcongr
  rw [div_le_iff₀ hWpos]
  calc N ≤ E + (3 * n * (ε * (U * M)) + 2 * n * η) := by linarith [(abs_le.1 hN).2]
    _ ≤ b * W + (n * ε * U * (3 * M) + n * ε * U * (3 * M)) + 2 * n * η := by linarith
    _ ≤ b * W + (n * ε * U * (4 * W) + n * ε * U * (4 * W)) + 2 * n * η / h * W := by linarith
    _ = (b + (8 * n * ε * U + 2 * n * η / h)) * W := by ring

/-- The quotient is rounded once more. -/
theorem add_round_le (hε : 0 ≤ ε) (hη : 0 ≤ η) (hn : 1 ≤ n) (hsmall : 8 * n * ε ≤ 1) (hh : 0 < h)
    (hh' : h ≤ 1) (hb : |b| ≤ U) :
    b + (8 * n * ε * U + 2 * n * η / h) + ε * |b + (8 * n * ε * U + 2 * n * η / h)| + η ≤
      b + n * (16 * ε * U + 4 * η / h) := by
  have hU : 0 ≤ U := (abs_nonneg b).trans hb
  have hηh : η ≤ η / h := le_div_self hη hh hh'
  have hfar : |b + (8 * n * ε * U + 2 * n * η / h)| ≤ U + (8 * n * ε * U + 2 * n * η / h) := by
    refine (abs_add_le _ _).trans (add_le_add hb (abs_of_nonneg ?_).le)
    positivity
  rw [mul_div_assoc, mul_div_assoc] at *
  generalize η / h = k at *
  have hk : 0 ≤ k := hη.trans hηh
  have h₁ : ε * (8 * n * ε * U) ≤ ε * U := by
    calc ε * (8 * n * ε * U) = 8 * n * ε * (ε * U) := by ring
      _ ≤ 1 * (ε * U) := by gcongr
      _ = ε * U := one_mul _
  have h₂ : ε * (2 * n * k) ≤ k := by
    have : 0 ≤ 6 * n * ε := by positivity
    calc ε * (2 * n * k) = 2 * n * ε * k := by ring
      _ ≤ 1 * k := by
        gcongr
        linarith
      _ = k := one_mul _
  have h₀ : 0 ≤ ε * U := by positivity
  have h₃ : ε * U ≤ n * (ε * U) := le_mul_of_one_le_left h₀ hn
  have h₄ : k ≤ n * k := le_mul_of_one_le_left hk hn
  have h₅ : ε * |b + (8 * n * ε * U + 2 * n * k)| ≤ ε * (U + (8 * n * ε * U + 2 * n * k)) := by
    gcongr
  linarith

/-- **A rounded weighted mean is above a bound of what is averaged by little at most.** -/
theorem round_div_le (hn : 1 ≤ n) (hsmall : n ≤ 2 ^ 49) (hh : 0 < h) (hh' : h ≤ 1) (hW : h ≤ W)
    (hM : 0 ≤ M) (hb : |b| ≤ U) (hlimit : -limit ≤ b) (hE : E ≤ b * M)
    (hN : |N - E| ≤ 3 * n * (2 ^ (-53 : ℤ) * (U * M)) + 2 * n * 2 ^ (-1075 : ℤ))
    (hmass : |W - M| ≤ 3 * n * (2 ^ (-53 : ℤ) * M)) :
    round (N / W) ≤ b + n * (2 ^ (-49 : ℤ) * U + 2 ^ (-1073 : ℤ) / h) := by
  have hcount : n * 2 ^ (-53 : ℤ) ≤ 1 / 16 := by
    calc n * (2 : ℚ) ^ (-53 : ℤ) ≤ 2 ^ 49 * 2 ^ (-53 : ℤ) := by gcongr
      _ = 1 / 16 := by norm_num
  have hparts : (2 : ℚ) ^ (-49 : ℤ) = 16 * 2 ^ (-53 : ℤ) := by norm_num
  have hleast : (2 : ℚ) ^ (-1073 : ℤ) = 4 * 2 ^ (-1075 : ℤ) := by
    rw [show (-1073 : ℤ) = -1075 + 1 + 1 by norm_num, zpow_add_one₀ two_ne_zero,
      zpow_add_one₀ two_ne_zero]
    ring
  have hround := @round_le_size
  have hε : (0 : ℚ) ≤ 2 ^ (-53 : ℤ) := by positivity
  have hη : (0 : ℚ) ≤ 2 ^ (-1075 : ℤ) := by positivity
  rw [hparts, hleast]
  generalize (2 : ℚ) ^ (-53 : ℤ) = ε at *
  generalize (2 : ℚ) ^ (-1075 : ℤ) = η at *
  have hU : 0 ≤ U := (abs_nonneg b).trans hb
  have hbeyond : 0 ≤ 8 * n * ε * U + 2 * n * η / h := by positivity
  calc round (N / W) ≤ round (b + (8 * n * ε * U + 2 * n * η / h)) :=
        round_mono (div_le_of_sums hε hη (by linarith) (by linarith) hh hW hM hb hE hN hmass)
    _ ≤ b + (8 * n * ε * U + 2 * n * η / h) +
          ε * |b + (8 * n * ε * U + 2 * n * η / h)| + η := hround (by linarith)
    _ ≤ b + n * (16 * ε * U + 4 * η / h) := add_round_le hε hη hn (by linarith) hh hh' hb

end Quotient

end FuzzyControl.Double
