import FuzzyControl.Proofs.Double.Value

/-!
# Rounding to a double

A number is rounded to the nearest number that a double stands for, the one with the even mantissa
of two equally near ones. Everything here is about numbers; which number an operation on doubles
rounds is the subject of the next file.

* `nearestEven`: the nearest integer, the even one of two equally near;
* `roundToGrid`: a number on the grid of its size, as if there were doubles of every size;
* `round`: the same with a sign and with an end at `limit`; it keeps the order (`round_mono`);
* `abs_roundToGrid_sub_le`: a number is rounded by at most half a step of its grid, and so by at most
  one part in `2 ^ 54` of a power of two above it (`abs_round_sub_le`);
* `round_lt`: two numbers that are not too close are rounded apart.
-/

namespace FuzzyControl.Double

/-! ## 1. The nearest integer -/

/-- The nearest integer, the even one of two equally near. -/
def nearestEven (q : ℚ) : ℤ :=
  if q < ⌊q⌋ + 1 / 2 then ⌊q⌋
  else if q = ⌊q⌋ + 1 / 2 then ⌊q⌋ + ⌊q⌋ % 2
  else ⌊q⌋ + 1

theorem floor_le_nearestEven (q : ℚ) : ⌊q⌋ ≤ nearestEven q := by
  unfold nearestEven
  split_ifs <;> omega

theorem nearestEven_le (q : ℚ) : nearestEven q ≤ ⌊q⌋ + 1 := by
  unfold nearestEven
  split_ifs <;> omega

theorem nearestEven_mono {p q : ℚ} (h : p ≤ q) : nearestEven p ≤ nearestEven q := by
  rcases (Int.floor_mono h).lt_or_eq with hlt | heq
  · calc nearestEven p ≤ ⌊p⌋ + 1 := nearestEven_le p
      _ ≤ ⌊q⌋ := hlt
      _ ≤ nearestEven q := floor_le_nearestEven q
  · unfold nearestEven
    rw [heq]
    split_ifs with hp hq hq' hp' hq hq' hq hq'
    any_goals omega
    all_goals exfalso
    · linarith
    · linarith
    · exact hp' (le_antisymm (by linarith) (not_lt.1 hp))

theorem nearestEven_intCast (n : ℤ) : nearestEven n = n := by
  unfold nearestEven
  rw [Int.floor_intCast, if_pos (by linarith)]

theorem nearestEven_natCast (n : Nat) : nearestEven n = n := by
  have h := nearestEven_intCast n
  rwa [Int.cast_natCast] at h

theorem nearestEven_two_pow (k : Nat) : nearestEven (2 ^ k) = 2 ^ k := by
  have h := nearestEven_natCast (2 ^ k)
  rwa [Nat.cast_pow, Nat.cast_ofNat, Nat.cast_pow, Nat.cast_ofNat] at h

/-! ## 2. The grid of doubles -/

/-- The logarithm of a number between two powers. -/
theorem log_eq {q : ℚ} {t : ℤ} (hlo : 2 ^ t ≤ q) (hup : q < 2 ^ (t + 1)) : Int.log 2 q = t := by
  have hpos : 0 < q := (zpow_pos two_pos t).trans_le hlo
  have hle : t ≤ Int.log 2 q := (Int.zpow_le_iff_le_log one_lt_two hpos).1 hlo
  have hlt : Int.log 2 q < t + 1 := (Int.lt_zpow_iff_log_lt one_lt_two hpos).1 hup
  omega

/-- The exponent of the grid on which a number of the size of `q` is rounded. -/
def gridExponent (q : ℚ) : ℤ := max (Int.log 2 q - 52) (-1074)

/-- A number on the grid of its size. -/
def roundToGrid (q : ℚ) : ℚ := nearestEven (q / 2 ^ gridExponent q) * 2 ^ gridExponent q

theorem gridExponent_mono {p q : ℚ} (hp : 0 < p) (h : p ≤ q) : gridExponent p ≤ gridExponent q :=
  max_le_max_right _ (Int.sub_le_sub_right (Int.log_mono_right hp h) _)

/-- A number is less than `2 ^ 53` steps of its grid. -/
theorem div_grid_lt (q : ℚ) : q / 2 ^ gridExponent q < 2 ^ 53 := by
  have hg : (0 : ℚ) < 2 ^ gridExponent q := by positivity
  rw [div_lt_iff₀ hg]
  have hlog : Int.log 2 q + 1 ≤ (53 : Nat) + gridExponent q := by
    have := le_max_left (Int.log 2 q - 52) (-1074)
    unfold gridExponent
    omega
  calc q < (2 : Nat) ^ (Int.log 2 q + 1) := Int.lt_zpow_succ_log_self one_lt_two q
    _ ≤ 2 ^ ((53 : Nat) + gridExponent q) := by
      rw [Nat.cast_ofNat]
      exact zpow_le_zpow_right₀ one_le_two hlog
    _ = 2 ^ 53 * 2 ^ gridExponent q := by rw [zpow_add₀ two_ne_zero, zpow_natCast]

/-- Above the least exponent, a number is at least `2 ^ 52` steps of its grid. -/
theorem le_div_grid {q : ℚ} (hq : 0 < q) (h : gridExponent q ≠ -1074) :
    2 ^ 52 ≤ q / 2 ^ gridExponent q := by
  have hg : (0 : ℚ) < 2 ^ gridExponent q := by positivity
  rw [le_div_iff₀ hg]
  have hlog : (52 : Nat) + gridExponent q = Int.log 2 q := by
    unfold gridExponent at h ⊢
    omega
  calc (2 : ℚ) ^ 52 * 2 ^ gridExponent q = 2 ^ ((52 : Nat) + gridExponent q) := by
        rw [zpow_add₀ two_ne_zero, zpow_natCast]
    _ = (2 : Nat) ^ Int.log 2 q := by rw [hlog, Nat.cast_ofNat]
    _ ≤ q := Int.zpow_log_le_self one_lt_two hq

theorem nearestEven_grid_le (q : ℚ) : nearestEven (q / 2 ^ gridExponent q) ≤ 2 ^ 53 := by
  have h := nearestEven_mono (div_grid_lt q).le
  rwa [nearestEven_two_pow] at h

theorem le_nearestEven_grid {q : ℚ} (hq : 0 < q) (h : gridExponent q ≠ -1074) :
    2 ^ 52 ≤ nearestEven (q / 2 ^ gridExponent q) := by
  have h := nearestEven_mono (le_div_grid hq h)
  rwa [nearestEven_two_pow] at h

theorem nearestEven_nonneg {q : ℚ} (hq : 0 ≤ q) : 0 ≤ nearestEven q := by
  have h := nearestEven_mono hq
  rwa [show (0 : ℚ) = ((0 : ℤ) : ℚ) from Int.cast_zero.symm, nearestEven_intCast] at h

theorem roundToGrid_nonneg {q : ℚ} (hq : 0 ≤ q) : 0 ≤ roundToGrid q := by
  have h : (0 : ℚ) ≤ nearestEven (q / 2 ^ gridExponent q) := by
    exact_mod_cast nearestEven_nonneg (q := q / 2 ^ gridExponent q) (by positivity)
  unfold roundToGrid
  positivity

theorem roundToGrid_zero : roundToGrid 0 = 0 := by
  unfold roundToGrid
  rw [zero_div, show (0 : ℚ) = ((0 : ℤ) : ℚ) from Int.cast_zero.symm, nearestEven_intCast,
    Int.cast_zero, zero_mul]

/-- **Rounding keeps the order**: on one grid as the nearest integer does, and from one grid to the
next because no number is rounded beyond the end of its own. -/
theorem roundToGrid_mono {p q : ℚ} (hp : 0 ≤ p) (h : p ≤ q) : roundToGrid p ≤ roundToGrid q := by
  rcases hp.eq_or_lt with rfl | hp
  · rw [roundToGrid_zero]
    exact roundToGrid_nonneg h
  · unfold roundToGrid
    rcases (gridExponent_mono hp h).lt_or_eq with hlt | heq
    · have hmin : -1074 ≤ gridExponent p := le_max_right _ _
      have hq := le_nearestEven_grid (hp.trans_le h) (by omega)
      have hp' : (nearestEven (p / 2 ^ gridExponent p) : ℚ) ≤ 2 ^ 53 := by
        exact_mod_cast nearestEven_grid_le p
      have hq' : (2 : ℚ) ^ 52 ≤ nearestEven (q / 2 ^ gridExponent q) := by exact_mod_cast hq
      calc (nearestEven (p / 2 ^ gridExponent p) : ℚ) * 2 ^ gridExponent p
          ≤ 2 ^ 53 * 2 ^ gridExponent p := by gcongr
        _ = 2 ^ 52 * 2 ^ (gridExponent p + 1) := by rw [zpow_add_one₀ two_ne_zero]; ring
        _ ≤ 2 ^ 52 * 2 ^ gridExponent q := by gcongr <;> [norm_num; omega]
        _ ≤ nearestEven (q / 2 ^ gridExponent q) * 2 ^ gridExponent q := by gcongr
    · have hdiv : nearestEven (p / 2 ^ gridExponent p) ≤ nearestEven (q / 2 ^ gridExponent q) := by
        rw [heq]
        exact nearestEven_mono (by gcongr)
      have hdiv' : (nearestEven (p / 2 ^ gridExponent p) : ℚ) ≤
          nearestEven (q / 2 ^ gridExponent q) := by exact_mod_cast hdiv
      rw [heq] at hdiv' ⊢
      gcongr

/-! ## 3. Signs and the end of the doubles -/

/-- The number that `q` is rounded to: with its sign, and at most `limit`. -/
def round (q : ℚ) : ℚ :=
  if q < 0 then -min (roundToGrid (-q)) limit else min (roundToGrid q) limit

theorem round_mono {p q : ℚ} (h : p ≤ q) : round p ≤ round q := by
  unfold round
  split_ifs with hp hq hq
  · exact neg_le_neg (min_le_min_right _ (roundToGrid_mono (by linarith) (by linarith)))
  · have h1 : 0 ≤ min (roundToGrid (-p)) limit :=
      le_min (roundToGrid_nonneg (by linarith)) limit_pos.le
    have h2 : 0 ≤ min (roundToGrid q) limit :=
      le_min (roundToGrid_nonneg (by linarith)) limit_pos.le
    linarith
  · exact absurd (h.trans_lt hq) hp
  · exact min_le_min_right _ (roundToGrid_mono (by linarith) h)

theorem round_of_nonneg {q : ℚ} (h : 0 ≤ q) : round q = min (roundToGrid q) limit :=
  if_neg (not_lt.2 h)

theorem round_zero : round 0 = 0 := by
  rw [round_of_nonneg le_rfl, roundToGrid_zero, min_eq_left limit_pos.le]

/-- A sign is kept as it is. -/
theorem round_neg (q : ℚ) : round (-q) = -round q := by
  rcases lt_trichotomy q 0 with h | rfl | h
  · rw [round_of_nonneg (by linarith), round, if_pos h, neg_neg]
  · rw [neg_zero, round_zero, neg_zero]
  · rw [round_of_nonneg h.le, round, if_pos (by linarith), neg_neg]

theorem round_nonneg {q : ℚ} (h : 0 ≤ q) : 0 ≤ round q := round_zero ▸ round_mono h

theorem round_abs (q : ℚ) : round |q| = |round q| := by
  rcases le_total 0 q with h | h
  · rw [abs_of_nonneg h, abs_of_nonneg (round_nonneg h)]
  · have hneg := round_nonneg (neg_nonneg_of_nonpos h)
    rw [round_neg] at hneg
    rw [abs_of_nonpos h, round_neg, abs_of_nonpos (by linarith)]

/-! ## 4. How far a number is rounded -/

/-- Nothing down to the least step is rounded to zero. -/
theorem roundToGrid_pos {q : ℚ} (h : 2 ^ (-1074 : ℤ) ≤ q) : 0 < roundToGrid q := by
  have hq : 0 < q := (by positivity : (0 : ℚ) < 2 ^ (-1074 : ℤ)).trans_le h
  have hsteps : 1 ≤ nearestEven (q / 2 ^ gridExponent q) := by
    by_cases hmin : gridExponent q = -1074
    · have hone : (1 : ℚ) ≤ q / 2 ^ gridExponent q := by
        rw [hmin]
        exact (one_le_div₀ (by positivity)).2 h
      have := nearestEven_mono hone
      rwa [show (1 : ℚ) = ((1 : ℤ) : ℚ) from Int.cast_one.symm, nearestEven_intCast] at this
    · have := le_nearestEven_grid hq hmin
      omega
  have hsteps' : (1 : ℚ) ≤ nearestEven (q / 2 ^ gridExponent q) := by exact_mod_cast hsteps
  unfold roundToGrid
  positivity

/-- An integer is nearest if it is at most a half away. -/
theorem abs_nearestEven_sub_le (q : ℚ) : |nearestEven q - q| ≤ 1 / 2 := by
  have hlo := Int.floor_le q
  have hup := Int.lt_floor_add_one q
  unfold nearestEven
  split_ifs with hlt heq
  · rw [abs_le]
    constructor <;> linarith
  · have hbit : (0 : ℤ) ≤ ⌊q⌋ % 2 ∧ ⌊q⌋ % 2 ≤ 1 := by omega
    have hbit₀ : (0 : ℚ) ≤ (⌊q⌋ % 2 : ℤ) := by exact_mod_cast hbit.1
    have hbit₁ : ((⌊q⌋ % 2 : ℤ) : ℚ) ≤ 1 := by exact_mod_cast hbit.2
    rw [abs_le]
    push_cast
    constructor <;> linarith
  · rw [abs_le]
    push_cast
    constructor <;> linarith

/-- A number is rounded by at most half a step of its grid. -/
theorem abs_roundToGrid_sub_le (q : ℚ) : |roundToGrid q - q| ≤ 1 / 2 * 2 ^ gridExponent q := by
  have hg : (0 : ℚ) < 2 ^ gridExponent q := by positivity
  have h := abs_nearestEven_sub_le (q / 2 ^ gridExponent q)
  calc |roundToGrid q - q|
      = |nearestEven (q / 2 ^ gridExponent q) - q / 2 ^ gridExponent q| * 2 ^ gridExponent q := by
        rw [roundToGrid, ← abs_of_pos hg, ← abs_mul, abs_of_pos hg, sub_mul,
          div_mul_cancel₀ _ hg.ne']
    _ ≤ 1 / 2 * 2 ^ gridExponent q := by gcongr

/-- The grid below a power of two. -/
theorem gridExponent_le {q : ℚ} {t : ℤ} (ht : -1021 ≤ t) (hq : 0 < q) (h : q < 2 ^ t) :
    gridExponent q ≤ t - 53 := by
  have hlog : Int.log 2 q < t := (Int.lt_zpow_iff_log_lt one_lt_two hq).1 (by simpa using h)
  unfold gridExponent
  omega

/-- Below the limit, nothing is rounded beyond it. -/
theorem roundToGrid_le_limit {q : ℚ} (hq : 0 < q) (h : q < limit) : roundToGrid q ≤ limit := by
  have hsteps : (nearestEven (q / 2 ^ gridExponent q) : ℚ) ≤ 2 ^ 53 := by
    exact_mod_cast nearestEven_grid_le q
  have hgrid : gridExponent q ≤ 971 := gridExponent_le (by norm_num) hq h
  calc roundToGrid q ≤ 2 ^ 53 * 2 ^ gridExponent q := by
        unfold roundToGrid
        gcongr
    _ ≤ 2 ^ 53 * 2 ^ (971 : ℤ) := by
        gcongr
        exact one_le_two
    _ = limit := by
        rw [limit, ← zpow_natCast, ← zpow_add₀ two_ne_zero]
        norm_num

/-- **A number below a power of two is rounded by at most one part in `2 ^ 54` of that power.** -/
theorem abs_round_sub_le {q : ℚ} {t : ℤ} (ht : -1021 ≤ t) (ht' : t ≤ 1024) (h : |q| < 2 ^ t) :
    |round q - q| ≤ 2 ^ (t - 54) := by
  have hpos : ∀ p : ℚ, 0 < p → p < 2 ^ t → |round p - p| ≤ 2 ^ (t - 54) := by
    intro p hp hlt
    have hlimit : p < limit := hlt.trans_le (zpow_le_zpow_right₀ one_le_two ht')
    rw [round_of_nonneg hp.le, min_eq_left (roundToGrid_le_limit hp hlimit)]
    calc |roundToGrid p - p| ≤ 1 / 2 * 2 ^ gridExponent p := abs_roundToGrid_sub_le p
      _ ≤ 1 / 2 * 2 ^ (t - 53) := by
        gcongr
        · exact one_le_two
        · exact gridExponent_le ht hp hlt
      _ = 2 ^ (t - 54) := by
        rw [show t - 53 = t - 54 + 1 by ring, zpow_add_one₀ two_ne_zero]
        ring
  rcases lt_trichotomy q 0 with hneg | rfl | hq
  · have hround := hpos (-q) (neg_pos_of_neg hneg) (by rwa [abs_of_neg hneg] at h)
    rwa [round_neg, neg_sub_neg, abs_sub_comm] at hround
  · rw [round_zero, sub_zero, abs_zero]
    positivity
  · exact hpos q hq (by rwa [abs_of_pos hq] at h)

/-- What is rounded to a number of full precision is less than it by at most one part in
`2 ^ 53`. -/
theorem mul_roundToGrid_le {q : ℚ} (hq : 0 < q) (h : 2 ^ (-1022 : ℤ) ≤ roundToGrid q) :
    (1 - 2 ^ (-53 : ℤ)) * roundToGrid q ≤ q := by
  have hg : (0 : ℚ) < 2 ^ gridExponent q := by positivity
  -- the rounded number has 53 bits
  have hbits : (2 : ℚ) ^ 52 ≤ nearestEven (q / 2 ^ gridExponent q) := by
    by_cases hmin : gridExponent q = -1074
    · unfold roundToGrid at h
      rw [hmin] at h ⊢
      have hsplit : (2 : ℚ) ^ (-1022 : ℤ) = 2 ^ 52 * 2 ^ (-1074 : ℤ) := by
        rw [← zpow_natCast, ← zpow_add₀ two_ne_zero]
        norm_num
      rw [hsplit] at h
      exact le_of_mul_le_mul_right h (by positivity)
    · exact_mod_cast le_nearestEven_grid hq hmin
  have hhalf : 1 / 2 * (2 : ℚ) ^ gridExponent q ≤ 2 ^ (-53 : ℤ) * roundToGrid q := by
    calc 1 / 2 * (2 : ℚ) ^ gridExponent q
        = 2 ^ (-53 : ℤ) * (2 ^ 52 * 2 ^ gridExponent q) := by
          rw [← mul_assoc]
          norm_num
      _ ≤ 2 ^ (-53 : ℤ) * roundToGrid q := by
          unfold roundToGrid
          gcongr
  have hround := (abs_le.1 (abs_roundToGrid_sub_le q)).2
  rw [sub_mul, one_mul, sub_le_iff_le_add]
  exact (sub_le_iff_le_add'.1 hround).trans (by gcongr)

/-! ## 5. Numbers that are rounded apart -/

/-- A multiple of a step that is not finer than the grid is not rounded. -/
theorem roundToGrid_of_step {q : ℚ} {e : ℤ} (he : gridExponent q ≤ e) {k : ℤ}
    (hk : q = k * 2 ^ e) : roundToGrid q = q := by
  obtain ⟨i, hi⟩ := Int.eq_ofNat_of_zero_le (Int.sub_nonneg_of_le he)
  have hg : (2 : ℚ) ^ gridExponent q ≠ 0 := by positivity
  have hsteps : q / 2 ^ gridExponent q = (k * 2 ^ i : ℤ) := by
    rw [div_eq_iff hg, Int.cast_mul, Int.cast_pow, Int.cast_ofNat, mul_assoc, ← zpow_natCast,
      ← zpow_add₀ two_ne_zero, show (i : ℤ) + gridExponent q = e by omega]
    exact hk
  rw [roundToGrid, hsteps, nearestEven_intCast, ← hsteps, div_mul_cancel₀ _ hg]

/-- On the least grid, its multiples are not rounded. -/
theorem roundToGrid_of_multiple {q : ℚ} (hg : gridExponent q = -1074) {k : ℤ}
    (hk : q = k * 2 ^ (-1074 : ℤ)) : roundToGrid q = q :=
  roundToGrid_of_step hg.le hk

/-- More than a step of the larger one apart, numbers are rounded apart. -/
theorem roundToGrid_lt_of_step_lt {p q : ℚ} (hp : 0 ≤ p) (h : 2 ^ gridExponent q < q - p) :
    roundToGrid p < roundToGrid q := by
  have hg : (0 : ℚ) < 2 ^ gridExponent q := by positivity
  have hq := (abs_le.1 (abs_roundToGrid_sub_le q)).1
  rcases hp.eq_or_lt with rfl | hp
  · rw [roundToGrid_zero]
    linarith
  · have hstep : (2 : ℚ) ^ gridExponent p ≤ 2 ^ gridExponent q :=
      zpow_le_zpow_right₀ one_le_two (gridExponent_mono hp (by linarith))
    have hp' := (abs_le.1 (abs_roundToGrid_sub_le p)).2
    linarith

theorem roundToGrid_lt {p q : ℚ} (hp : 0 ≤ p) (hpq : p < q) (hnear : p ≤ 2 ^ 51 * (q - p))
    {k l : ℤ} (hk : p = k * 2 ^ (-1074 : ℤ)) (hl : q = l * 2 ^ (-1074 : ℤ)) :
    roundToGrid p < roundToGrid q := by
  have hq : 0 < q := hp.trans_lt hpq
  by_cases hmin : gridExponent q = -1074
  · rcases hp.eq_or_lt with rfl | hp
    · rwa [roundToGrid_zero, roundToGrid_of_multiple hmin hl]
    · have hminp : gridExponent p = -1074 :=
        le_antisymm (hmin ▸ gridExponent_mono hp hpq.le) (le_max_right _ _)
      rwa [roundToGrid_of_multiple hminp hk, roundToGrid_of_multiple hmin hl]
  · -- a number has at least `2 ^ 52` steps, of which more than one lie between the two
    refine roundToGrid_lt_of_step_lt hp ?_
    have hg : (0 : ℚ) < 2 ^ gridExponent q := by positivity
    have hsteps := le_div_grid hq hmin
    rw [le_div_iff₀ hg] at hsteps
    linarith

/-- **Numbers are rounded apart** if their distance is at least one part in `2 ^ 51` of the smaller
one, and that one is not rounded to the end of the doubles. -/
theorem round_lt {p q : ℚ} (hp : 0 ≤ p) (hpq : p < q) (hnear : p ≤ 2 ^ 51 * (q - p))
    (hlimit : round p < limit) {k l : ℤ} (hk : p = k * 2 ^ (-1074 : ℤ))
    (hl : q = l * 2 ^ (-1074 : ℤ)) : round p < round q := by
  have hlt := roundToGrid_lt hp hpq hnear hk hl
  rw [round_of_nonneg hp, min_lt_iff] at hlimit
  have hgrid := hlimit.resolve_right (lt_irrefl _)
  rw [round_of_nonneg hp, round_of_nonneg (hp.trans hpq.le), min_eq_left hgrid.le]
  exact lt_min hlt hgrid

end FuzzyControl.Double
