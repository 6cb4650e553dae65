import FuzzyControl.Proofs.Double.Rounding

/-!
# Rounding next to a multiple of a double

The `n + 1`-fold of a double lies on the grid of the double, while what is rounded there goes to a
grid that is up to `n` times as coarse. So a number that keeps `n` steps of the finer grid away from
the multiple is not rounded across it. And `n` steps away is where the `n`-th double after a double
is; only below a power of two the steps are half as long.

* `OnGrid`: the numbers that are not rounded, up to the sign and the end of the doubles;
* `multiple_cases`: a multiple is on its own grid, or it has steps left to that of the double;
* `climb`: how far the `n`-th double above a double is away at least; `climb_succ`;
* `mul_le_round`: what is `climb` above a multiple is not rounded below it.
-/

namespace FuzzyControl.Double

/-! ## 1. Numbers on their grid -/

/-- A number whose size is not rounded. -/
def OnGrid (q : ℚ) : Prop := roundToGrid |q| = |q|

theorem OnGrid.neg {q : ℚ} (h : OnGrid q) : OnGrid (-q) := by
  unfold OnGrid at h ⊢
  rwa [abs_neg]

/-- A number on its grid is a multiple of every finer step. -/
theorem OnGrid.exists_steps {p : ℚ} (h : OnGrid p) {e : ℤ} (he : e ≤ gridExponent |p|) :
    ∃ k : ℤ, p = k * 2 ^ e := by
  obtain ⟨i, hi⟩ := Int.eq_ofNat_of_zero_le (Int.sub_nonneg_of_le he)
  have hsize : |p| = (nearestEven (|p| / 2 ^ gridExponent |p|) * 2 ^ i : ℤ) * 2 ^ e := by
    rw [Int.cast_mul, Int.cast_pow, Int.cast_ofNat, mul_assoc, ← zpow_natCast,
      ← zpow_add₀ two_ne_zero, show (i : ℤ) + e = gridExponent |p| by omega]
    exact h.symm
  rcases abs_choice p with hp | hp
  · exact ⟨_, hp ▸ hsize⟩
  · refine ⟨-(nearestEven (|p| / 2 ^ gridExponent |p|) * 2 ^ i), ?_⟩
    rw [Int.cast_neg, neg_mul, ← hsize, hp, neg_neg]

/-- A positive number on its grid is a mantissa of at most 53 bits, which has all of them unless the
grid is the least. -/
theorem OnGrid.exists_mantissa {q : ℚ} (h : OnGrid q) (hq : 0 < q) :
    ∃ m : Nat, q = m * 2 ^ gridExponent q ∧ 0 < m ∧ m < 2 ^ 53 ∧
      (2 ^ 52 ≤ m ∨ gridExponent q = -1074) := by
  have hg : (0 : ℚ) < 2 ^ gridExponent q := by positivity
  obtain ⟨k, hk⟩ := h.exists_steps (e := gridExponent q) (by rw [abs_of_pos hq])
  have hsteps : q / 2 ^ gridExponent q = k := (div_eq_iff hg.ne').2 hk
  have hk0 : 0 < k := by
    have : (0 : ℚ) < k := hsteps ▸ div_pos hq hg
    exact_mod_cast this
  obtain ⟨m, rfl⟩ := Int.eq_ofNat_of_zero_le hk0.le
  rw [Int.cast_natCast] at hk hsteps
  refine ⟨m, hk, by exact_mod_cast hk0, ?_, ?_⟩
  · have hlt := div_grid_lt q
    rw [hsteps] at hlt
    exact_mod_cast hlt
  · by_cases hmin : gridExponent q = -1074
    · exact .inr hmin
    · have hle := le_div_grid hq hmin
      rw [hsteps] at hle
      exact .inl (by exact_mod_cast hle)

/-- From a power of two on, the grid is not finer than there. -/
theorem le_gridExponent {q : ℚ} {e : ℤ} (hq : 0 < q) (h : 2 ^ 52 * 2 ^ e ≤ q) :
    e ≤ gridExponent q := by
  have hpow : ((2 : Nat) : ℚ) ^ (52 + e) ≤ q := by
    rwa [Nat.cast_ofNat, zpow_add₀ two_ne_zero, show (52 : ℤ) = (52 : Nat) from rfl, zpow_natCast]
  have hlog := (Int.zpow_le_iff_le_log one_lt_two hq).1 hpow
  exact le_max_of_le_left (by omega)

/-- Of two multiples of a step, the greater one is a step away. -/
theorem add_step_le {k l : ℤ} {e : ℤ} (h : (k : ℚ) * 2 ^ e < l * 2 ^ e) :
    ((k : ℚ) + 1) * 2 ^ e ≤ l * 2 ^ e := by
  have hlt : k < l := by exact_mod_cast lt_of_mul_lt_mul_right h (by positivity)
  have hle : (k : ℚ) + 1 ≤ l := by exact_mod_cast hlt
  gcongr

/-! ## 2. Next to a number -/

/-- What is half a step below a number is not rounded above it. -/
theorem roundToGrid_le_of_half {q Q : ℚ} (hq : 0 ≤ q) (h : q + 1 / 2 * 2 ^ gridExponent Q ≤ Q) :
    roundToGrid q ≤ Q := by
  have hg : (0 : ℚ) < 2 ^ gridExponent Q := by positivity
  rcases hq.eq_or_lt with rfl | hpos
  · rw [roundToGrid_zero]
    linarith
  · have hgrid : (2 : ℚ) ^ gridExponent q ≤ 2 ^ gridExponent Q :=
      zpow_le_zpow_right₀ one_le_two (gridExponent_mono hpos (by linarith))
    have hround := (abs_le.1 (abs_roundToGrid_sub_le q)).2
    linarith

/-- What is half a step above a number is not rounded below it, on a coarser grid either. -/
theorem le_roundToGrid_of_half {q Q : ℚ} (hQ : 0 < Q) (h : Q + 1 / 2 * 2 ^ gridExponent Q ≤ q) :
    Q ≤ roundToGrid q := by
  have hg : (0 : ℚ) < 2 ^ gridExponent Q := by positivity
  have hq : Q ≤ q := by linarith
  rcases (gridExponent_mono hQ hq).eq_or_lt with heq | hlt
  · have hround := (abs_le.1 (abs_roundToGrid_sub_le q)).1
    rw [← heq] at hround
    linarith
  · have hmin : -1074 ≤ gridExponent Q := le_max_right _ _
    have hbits : (2 : ℚ) ^ 52 ≤ nearestEven (q / 2 ^ gridExponent q) := by
      exact_mod_cast le_nearestEven_grid (hQ.trans_le hq) (by omega)
    have hend := div_grid_lt Q
    rw [div_lt_iff₀ hg] at hend
    calc Q ≤ 2 ^ 53 * 2 ^ gridExponent Q := hend.le
      _ = 2 ^ 52 * 2 ^ (gridExponent Q + 1) := by rw [zpow_add_one₀ two_ne_zero]; ring
      _ ≤ 2 ^ 52 * 2 ^ gridExponent q := by gcongr <;> [norm_num; omega]
      _ ≤ roundToGrid q := by
        unfold roundToGrid
        gcongr

/-- **A multiple of a double is on its grid, or that is coarser and the multiple has more steps than
a mantissa there.** -/
theorem multiple_cases {n m : Nat} {e : ℤ} (hm : 0 < m) (he : -1074 ≤ e) :
    roundToGrid ((n + 1) * (m * 2 ^ e)) = (n + 1) * (m * 2 ^ e) ∨
      ∃ t : Nat, 2 ^ (53 + t) < (n + 1) * m ∧
        1 / 2 * (2 : ℚ) ^ gridExponent ((n + 1) * (m * 2 ^ e)) = 2 ^ t * 2 ^ e := by
  have hsteps : ((n : ℚ) + 1) * (m * 2 ^ e) = ((n + 1) * m : Nat) * 2 ^ e := by
    push_cast
    ring
  have hpos : (0 : ℚ) < (n + 1) * (m * 2 ^ e) := by positivity
  by_cases hgrid : gridExponent (((n : ℚ) + 1) * (m * 2 ^ e)) ≤ e
  · exact .inl (roundToGrid_of_step hgrid (k := ((n + 1) * m : Nat)) (by rw [hsteps]; simp))
  · obtain ⟨t, ht⟩ : ∃ t : Nat, gridExponent (((n : ℚ) + 1) * (m * 2 ^ e)) = e + (t + 1) := by
      refine ⟨(gridExponent (((n : ℚ) + 1) * (m * 2 ^ e)) - e - 1).toNat, ?_⟩
      omega
    have hle := le_div_grid hpos (by omega)
    have hcoarse : (2 : ℚ) ^ 52 * 2 ^ (e + (t + 1)) = (2 ^ (53 + t) : Nat) * 2 ^ e := by
      rw [zpow_add₀ two_ne_zero, ← Nat.cast_add_one, zpow_natCast]
      push_cast
      ring
    rw [ht, le_div_iff₀ (by positivity), hcoarse, hsteps] at hle
    have hbits : 2 ^ (53 + t) ≤ (n + 1) * m := by
      exact_mod_cast le_of_mul_le_mul_right hle (by positivity)
    rcases hbits.lt_or_eq with hlt | heq
    · refine .inr ⟨t, hlt, ?_⟩
      rw [ht, ← add_assoc, zpow_add_one₀ two_ne_zero, zpow_add₀ two_ne_zero, zpow_natCast]
      ring
    · refine .inl (roundToGrid_of_step ht.le (k := 2 ^ 52) ?_)
      rw [hsteps, ← heq, ← hcoarse]
      norm_num

/-! ## 3. The doubles next to a double -/

/-- A number on its grid that is below `k` steps is below them by one, if there is no finer grid
just below them. -/
theorem OnGrid.le_sub_step {p : ℚ} (hp : OnGrid p) {k f : ℤ} (h : p < k * 2 ^ f)
    (hk : 2 ^ 52 + 1 ≤ k ∨ f = -1074) : p ≤ (k - 1) * 2 ^ f := by
  have hf : (0 : ℚ) < 2 ^ f := by positivity
  by_cases hgrid : f ≤ gridExponent |p|
  · obtain ⟨l, rfl⟩ := hp.exists_steps hgrid
    have hle := add_step_le h
    linarith
  · have hk' : (2 : ℚ) ^ 52 ≤ k - 1 := by
      have hmin : -1074 ≤ gridExponent |p| := le_max_right _ _
      have hint : (2 : ℤ) ^ 52 ≤ k - 1 := by omega
      exact_mod_cast hint
    -- `p` is on a finer grid, so it is below the full mantissas of this one
    have hsmall : p < 2 ^ 52 * 2 ^ f := by
      by_contra hbig
      rw [not_lt] at hbig
      have hpos : 0 < p := (by positivity : (0 : ℚ) < 2 ^ 52 * 2 ^ f).trans_le hbig
      rw [abs_of_pos hpos] at hgrid
      exact hgrid (le_gridExponent hpos hbig)
    exact hsmall.le.trans (by gcongr)

/-- How many steps the `n`-th double below a mantissa of `m` steps is below it, at least. Below
`2 ^ 52` steps they are half as long, unless they are the least. -/
def fall (e : ℤ) (m : ℚ) (n : Nat) : ℚ :=
  if e = -1074 then n else (n + min (n : ℚ) (m - 2 ^ 52)) / 2

section Fall

variable {e : ℤ} {m n : Nat}

/-- Down to the power of two, and on the least grid, all steps are whole. -/
theorem fall_of_le (h : 2 ^ 52 + n ≤ m ∨ e = -1074) : fall e m n = n := by
  unfold fall
  split_ifs with he
  · rfl
  · have hm : (2 : ℚ) ^ 52 + n ≤ m := by exact_mod_cast h.resolve_right he
    rw [min_eq_left (by linarith), add_self_div_two]

/-- Below the power of two, the others are halved. -/
theorem fall_of_ge (he : e ≠ -1074) (h : m ≤ 2 ^ 52 + n) :
    fall e m n = (n + (m - 2 ^ 52)) / 2 := by
  have hm : (m : ℚ) ≤ 2 ^ 52 + n := by exact_mod_cast h
  rw [fall, if_neg he, min_eq_right (by linarith)]

theorem fall_le (e : ℤ) (m : ℚ) (n : Nat) : fall e m n ≤ n := by
  unfold fall
  split_ifs
  · exact le_rfl
  · calc ((n : ℚ) + min (n : ℚ) (m - 2 ^ 52)) / 2 ≤ (n + n) / 2 := by
          gcongr
          exact min_le_left _ _
      _ = n := add_self_div_two _

theorem fall_zero (hfull : 2 ^ 52 ≤ m ∨ e = -1074) : fall e m 0 = 0 :=
  (fall_of_le hfull).trans Nat.cast_zero

theorem fall_nonneg (hfull : 2 ^ 52 ≤ m ∨ e = -1074) : 0 ≤ fall e m n := by
  by_cases h : 2 ^ 52 + n ≤ m ∨ e = -1074
  · rw [fall_of_le h]
    positivity
  · have hm : (2 : ℚ) ^ 52 ≤ m := by exact_mod_cast hfull.resolve_right fun he => h (.inr he)
    rw [fall_of_ge (fun he => h (.inr he)) (by omega)]
    have hn : (0 : ℚ) ≤ n := n.cast_nonneg
    linarith

/-- The first of the doubles below is the farthest from the one before. -/
theorem fall_le_mul (hfull : 2 ^ 52 ≤ m ∨ e = -1074) : fall e m n ≤ n * fall e m 1 := by
  by_cases h : 2 ^ 52 + 1 ≤ m ∨ e = -1074
  · rw [fall_of_le h, Nat.cast_one, mul_one]
    exact fall_le e m n
  · have hm : (m : ℚ) = 2 ^ 52 := by exact_mod_cast (by omega : m = 2 ^ 52)
    have he : e ≠ -1074 := fun he => h (.inr he)
    rw [fall_of_ge he (by omega), fall_of_ge he (by omega), hm, Nat.cast_one]
    linarith

/-- One double further down. -/
theorem OnGrid.le_sub_fall {p q : ℚ} (hp : OnGrid p) (hfull : 2 ^ 52 ≤ m ∨ e = -1074)
    (hn : n < 2 ^ 52) (hq : q ≤ (m - fall e m n) * 2 ^ e) (hpq : p < q) :
    p ≤ (m - fall e m (n + 1)) * 2 ^ e := by
  have hlt := hpq.trans_le hq
  by_cases h : 2 ^ 52 + (n + 1) ≤ m ∨ e = -1074
  · rw [fall_of_le (by omega)] at hlt
    rw [fall_of_le h]
    have hle := hp.le_sub_step (k := m - n) (f := e) (by push_cast; exact hlt) (by omega)
    push_cast at hle ⊢
    linarith
  · -- the power of two is passed, so the steps are half as long
    have he : e ≠ -1074 := fun he => h (.inr he)
    have hhalf : (2 : ℚ) ^ e = 2 * 2 ^ (e - 1) := by
      rw [zpow_sub_one₀ two_ne_zero]
      ring
    rw [fall_of_ge he (by omega), hhalf] at hlt
    rw [fall_of_ge he (by omega), hhalf]
    have hle := hp.le_sub_step (k := m + 2 ^ 52 - n) (f := e - 1)
      (by push_cast; linarith) (by omega)
    push_cast at hle ⊢
    linarith

theorem two_pow_le_count {t : Nat} (hm : m < 2 ^ 53) (h : 2 ^ (53 + t) < (n + 1) * m) :
    2 ^ t ≤ n := by
  by_contra hlt
  have hle : (n + 1) * m ≤ 2 ^ t * 2 ^ 53 := Nat.mul_le_mul (by omega) hm.le
  rw [← pow_add, Nat.add_comm t] at hle
  omega

/-- **Where a multiple is on a coarser grid, that many doubles below are half a coarse step
away.** -/
theorem two_pow_le_fall {t : Nat} (hm : m < 2 ^ 53) (hfull : 2 ^ 52 ≤ m ∨ e = -1074)
    (hn : n < 2 ^ 52) (h : 2 ^ (53 + t) < (n + 1) * m) : (2 : ℚ) ^ t ≤ fall e m n := by
  by_cases hwhole : 2 ^ 52 + n ≤ m ∨ e = -1074
  · rw [fall_of_le hwhole]
    exact_mod_cast two_pow_le_count hm h
  · have he : e ≠ -1074 := fun he => hwhole (.inr he)
    obtain ⟨r, rfl⟩ := Nat.exists_eq_add_of_le (hfull.resolve_right he)
    have hboth : 2 * 2 ^ t ≤ n + r := by
      by_contra hlt
      have hroom : r * (n + 1) ≤ r * 2 ^ 52 := Nat.mul_le_mul_left r hn
      have hsmall : 2 ^ 52 * (n + 1 + r) ≤ 2 ^ 52 * (2 * 2 ^ t) :=
        Nat.mul_le_mul_left _ (by omega)
      have hpow : 2 ^ (53 + t) = 2 ^ 52 * (2 * 2 ^ t) := by ring
      rw [hpow, Nat.mul_add (n + 1), Nat.mul_comm (n + 1) r] at h
      omega
    have hboth' : (2 : ℚ) * 2 ^ t ≤ n + r := by exact_mod_cast hboth
    rw [fall_of_ge he (by omega)]
    push_cast
    linarith

end Fall

/-- How far above a number on its grid the `n`-th one after it is, at least. -/
def climb (a : ℚ) (n : Nat) : ℚ :=
  if a < 0 then fall (gridExponent (-a)) (-a / 2 ^ gridExponent (-a)) n * 2 ^ gridExponent (-a)
  else if a = 0 then 0
  else n * 2 ^ gridExponent a

theorem climb_of_pos {a : ℚ} (h : 0 < a) (n : Nat) : climb a n = n * 2 ^ gridExponent a := by
  rw [climb, if_neg (not_lt.2 h.le), if_neg h.ne']

theorem climb_zero (n : Nat) : climb 0 n = 0 := by
  rw [climb, if_neg (lt_irrefl 0), if_pos rfl]

theorem climb_neg {y : ℚ} {m : Nat} (hy : 0 < y) (h : y = m * 2 ^ gridExponent y) (n : Nat) :
    climb (-y) n = fall (gridExponent y) m n * 2 ^ gridExponent y := by
  have hg : (2 : ℚ) ^ gridExponent y ≠ 0 := by positivity
  rw [climb, if_pos (neg_neg_of_pos hy), neg_neg, (div_eq_iff hg).2 h]

section Climb

variable {a : ℚ} {n : Nat}

theorem climb_nonneg (ha : OnGrid a) : 0 ≤ climb a n := by
  rcases lt_trichotomy a 0 with hneg | rfl | hpos
  · obtain ⟨m, hm, -, -, hfull⟩ := ha.neg.exists_mantissa (neg_pos_of_neg hneg)
    rw [← neg_neg a, climb_neg (neg_pos_of_neg hneg) hm]
    exact mul_nonneg (fall_nonneg hfull) (by positivity)
  · rw [climb_zero]
  · rw [climb_of_pos hpos]
    positivity

theorem climb_start (ha : OnGrid a) : climb a 0 = 0 := by
  rcases lt_trichotomy a 0 with hneg | rfl | hpos
  · obtain ⟨m, hm, -, -, hfull⟩ := ha.neg.exists_mantissa (neg_pos_of_neg hneg)
    rw [← neg_neg a, climb_neg (neg_pos_of_neg hneg) hm, fall_zero hfull, zero_mul]
  · exact climb_zero 0
  · rw [climb_of_pos hpos, Nat.cast_zero, zero_mul]

/-- The first of the doubles above is the farthest from the one before, as far as `climb` counts. -/
theorem climb_le_mul (ha : OnGrid a) : climb a n ≤ n * climb a 1 := by
  rcases lt_trichotomy a 0 with hneg | rfl | hpos
  · obtain ⟨m, hm, -, -, hfull⟩ := ha.neg.exists_mantissa (neg_pos_of_neg hneg)
    rw [← neg_neg a, climb_neg (neg_pos_of_neg hneg) hm, climb_neg (neg_pos_of_neg hneg) hm,
      ← mul_assoc]
    exact mul_le_mul_of_nonneg_right (fall_le_mul hfull) (by positivity)
  · rw [climb_zero, climb_zero, mul_zero]
  · rw [climb_of_pos hpos, climb_of_pos hpos, Nat.cast_one, one_mul]

/-- **One double further up.** -/
theorem climb_succ {p q : ℚ} (ha : OnGrid a) (hp : OnGrid p) (hn : n < 2 ^ 52)
    (hq : a + climb a n ≤ q) (hqp : q < p) : a + climb a (n + 1) ≤ p := by
  rcases lt_trichotomy a 0 with hneg | rfl | hpos
  · obtain ⟨m, hm, -, -, hfull⟩ := ha.neg.exists_mantissa (neg_pos_of_neg hneg)
    rw [← neg_neg a, climb_neg (neg_pos_of_neg hneg) hm] at hq ⊢
    have hle := hp.neg.le_sub_fall (q := -q) hfull hn
      (by rw [sub_mul, ← hm]; linarith) (by linarith)
    rw [sub_mul, ← hm] at hle
    linarith
  · rw [climb_zero] at hq ⊢
    linarith
  · rw [climb_of_pos hpos] at hq ⊢
    have hg : (0 : ℚ) < 2 ^ gridExponent a := by positivity
    have hap : a ≤ p := by
      have : (0 : ℚ) ≤ n * 2 ^ gridExponent a := by positivity
      linarith
    obtain ⟨m, hm, -⟩ := ha.exists_mantissa hpos
    -- above `a` there is no finer grid
    obtain ⟨k, hk⟩ := hp.exists_steps (e := gridExponent a)
      (by rw [abs_of_pos (hpos.trans_le hap)]; exact gridExponent_mono hpos hap)
    generalize gridExponent a = e at *
    have hle := add_step_le (k := m + n) (l := k) (e := e) (by push_cast; linarith)
    push_cast at hle ⊢
    linarith

/-! ## 4. Rounding next to a multiple -/

theorem round_le_roundToGrid {q : ℚ} (h : 0 ≤ q) : round q ≤ roundToGrid q := by
  rw [round_of_nonneg h]
  exact min_le_left _ _

theorem roundToGrid_eq_round {q : ℚ} (h : 0 ≤ q) (hlimit : round q < limit) :
    roundToGrid q = round q := by
  rw [round_of_nonneg h] at hlimit ⊢
  exact (min_eq_left ((min_lt_iff.1 hlimit).resolve_right (lt_irrefl _)).le).symm

/-- What is `fall` below a multiple of a positive double is not rounded above the multiple. -/
theorem round_le_mul {q : ℚ} {e : ℤ} {m : Nat} (hm : 0 < m) (hm' : m < 2 ^ 53) (he : -1074 ≤ e)
    (hfull : 2 ^ 52 ≤ m ∨ e = -1074) (hn : n < 2 ^ 52)
    (hq : q + fall e m n * 2 ^ e ≤ (n + 1) * (m * 2 ^ e)) : round q ≤ (n + 1) * (m * 2 ^ e) := by
  have hfall : 0 ≤ fall e m n * 2 ^ e := mul_nonneg (fall_nonneg hfull) (by positivity)
  rcases lt_or_ge q 0 with hq0 | hq0
  · calc round q ≤ round 0 := round_mono hq0.le
      _ = 0 := round_zero
      _ ≤ (n + 1) * (m * 2 ^ e) := by positivity
  · refine (round_le_roundToGrid hq0).trans ?_
    obtain hexact | ⟨t, ht, hhalf⟩ := multiple_cases (n := n) hm he
    · rw [← hexact]
      exact roundToGrid_mono hq0 (by linarith)
    · have hroom : (2 : ℚ) ^ t * 2 ^ e ≤ fall e m n * 2 ^ e := by
        gcongr
        exact two_pow_le_fall hm' hfull hn ht
      exact roundToGrid_le_of_half hq0 (by linarith)

/-- What is `n` steps above a multiple of a positive double is not rounded below the multiple. -/
theorem mul_le_roundToGrid {q : ℚ} {e : ℤ} {m : Nat} (hm : 0 < m) (hm' : m < 2 ^ 53)
    (he : -1074 ≤ e) (hq : (n + 1) * (m * 2 ^ e) + n * 2 ^ e ≤ q) :
    (n + 1) * (m * 2 ^ e) ≤ roundToGrid q := by
  have hpos : (0 : ℚ) < (n + 1) * (m * 2 ^ e) := by positivity
  have hsteps : (0 : ℚ) ≤ n * 2 ^ e := by positivity
  obtain hexact | ⟨t, ht, hhalf⟩ := multiple_cases (n := n) hm he
  · rw [← hexact]
    exact roundToGrid_mono hpos.le (by linarith)
  · have hroom : (2 : ℚ) ^ t * 2 ^ e ≤ n * 2 ^ e := by
      gcongr
      exact_mod_cast two_pow_le_count hm' ht
    exact le_roundToGrid_of_half hpos (by linarith)

/-- **What is `climb` above a multiple of a double is not rounded below the multiple**, unless there
are no more doubles there. -/
theorem mul_le_round {q : ℚ} (ha : OnGrid a) (hn : n < 2 ^ 52) (hq : (n + 1) * a + climb a n ≤ q)
    (hlimit : round q < limit) : (n + 1) * a ≤ round q := by
  rcases lt_trichotomy a 0 with hneg | rfl | hpos
  · obtain ⟨m, hm, hm0, hm', hfull⟩ := ha.neg.exists_mantissa (neg_pos_of_neg hneg)
    obtain ⟨y, rfl⟩ : ∃ y, a = -y := ⟨-a, (neg_neg a).symm⟩
    have hmin : -1074 ≤ gridExponent y := le_max_right _ _
    rw [neg_neg] at hm hfull
    rw [climb_neg (by linarith) hm, mul_neg] at hq
    have hle := round_le_mul (q := -q) hm0 hm' hmin hfull hn (by
      rw [← hm]
      linarith)
    rw [← hm, round_neg] at hle
    linarith
  · rw [climb_zero, mul_zero, zero_add] at hq
    rw [mul_zero]
    exact round_nonneg hq
  · obtain ⟨m, hm, hm0, hm', -⟩ := ha.exists_mantissa hpos
    have hmin : -1074 ≤ gridExponent a := le_max_right _ _
    have hq0 : 0 ≤ q :=
      (add_nonneg (mul_nonneg n.cast_add_one_pos.le hpos.le) (climb_nonneg ha)).trans hq
    rw [climb_of_pos hpos] at hq
    rw [← roundToGrid_eq_round hq0 hlimit]
    have hle := mul_le_roundToGrid (q := q) (n := n) hm0 hm' hmin (by rwa [← hm])
    rwa [← hm] at hle

end Climb

end FuzzyControl.Double
