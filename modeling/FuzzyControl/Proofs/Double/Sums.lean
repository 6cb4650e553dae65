import FuzzyControl.Proofs.Double.Operations

/-!
# Sums from left to right

A sum of doubles is rounded after every addition, so it depends on the order. This file holds what
does not: where a sum is finite, all of its parts are; a sum of finite doubles is a number; and a
sum of doubles that are not below zero is not below any of them, however small they are.

* `neg_zero_add`: negative zero adds nothing, not even to a zero;
* `value_ofNat`: a count as a double is the rounded count, and the count itself up to `2 ^ 53`;
* `total`: the sum of a list, from zero;
* `mem_le_total`, `total_beq_zero_iff`: sums of doubles that are not below zero;
* `value_total_le`: a sum of memberships is finite.
-/

namespace FuzzyControl.Double

open Float.Model (Format UnpackedFloat)
open Float.Model.UnpackedFloat hiding round normalize

/-! ## 1. One addition -/

theorem zero_negative_add (u : UnpackedFloat) :
    UnpackedFloat.add Format.binary64 (.zero .negative) u = u := by
  cases u with
  | zero s => cases s <;> rfl
  | _ => rfl

/-- **Negative zero adds nothing**: every double is packed as it was. -/
theorem neg_zero_add (x : Float) : -0.0 + x = x := by
  have hzero : (-0.0 : Float).toModel.unpack = .zero .negative := rfl
  show Float.ofModel (.pack (UnpackedFloat.add Format.binary64 (-0.0 : Float).toModel.unpack
    x.toModel.unpack)) = x
  rw [hzero, zero_negative_add]
  obtain ⟨⟨bits, hvalid⟩⟩ := x
  unfold Float.Model.pack Float.Model.unpack
  congr
  exact pack_unpack_of_valid hvalid

section Addition

variable {x y : Float}

/-- If a sum is finite, nothing infinite was added. -/
theorem isFinite_of_add (h : (x + y).isFinite = true) : x.isFinite = true ∧ y.isFinite = true := by
  change (unpack Format.binary64 (pack Format.binary64
    (UnpackedFloat.add Format.binary64 x.toModel.unpack y.toModel.unpack))).isFinite = true at h
  show x.toModel.unpack.isFinite = true ∧ y.toModel.unpack.isFinite = true
  generalize x.toModel.unpack = u at *
  generalize y.toModel.unpack = v at *
  by_contra hnot
  have hadd : (UnpackedFloat.add Format.binary64 u v).isFinite = false := by
    cases u with
    | notANumber => rfl
    | infinity s =>
      cases v with
      | infinity t => cases s <;> cases t <;> rfl
      | _ => rfl
    | _ =>
      cases v with
      | notANumber => rfl
      | infinity t => rfl
      | _ => exact absurd ⟨rfl, rfl⟩ hnot
  rw [isFinite_pack hadd] at h
  cases h

/-- A finite double added to a number makes a number. -/
theorem isNaN_add_of_isFinite (hx : x.isNaN = false) (hy : y.isFinite = true) :
    (x + y).isNaN = false := by
  by_cases hfin : x.isFinite = true
  · exact (value_add hfin hy).1
  · show (unpack Format.binary64 (pack Format.binary64
      (UnpackedFloat.add Format.binary64 x.toModel.unpack y.toModel.unpack))).isNaN = false
    change x.toModel.unpack.isNaN = false at hx
    change ¬ x.toModel.unpack.isFinite = true at hfin
    change y.toModel.unpack.isFinite = true at hy
    generalize x.toModel.unpack = u at *
    generalize y.toModel.unpack = v at *
    cases u with
    | notANumber => cases hx
    | zero s => exact absurd rfl hfin
    | finite s m e hm => exact absurd rfl hfin
    | infinity s =>
      have hadd : UnpackedFloat.add Format.binary64 (.infinity s) v = .infinity s := by
        cases v with
        | notANumber => cases hy
        | infinity t => cases hy
        | zero t => rfl
        | finite t n e hn => rfl
      rw [hadd, unpack_pack_infinity]
      rfl

/-- An infinity above zero stays when it is added to a finite double. -/
theorem value_add_infinite (hx : x.isFinite = true) (hy : y.isNaN = false)
    (h0 : 0 ≤ value y) (hinf : ¬ y.isFinite = true) :
    (x + y).isNaN = false ∧ value (x + y) = limit := by
  have hlim := limit_pos
  have hadd : UnpackedFloat.add Format.binary64 x.toModel.unpack y.toModel.unpack =
      .infinity .positive := by
    change x.toModel.unpack.isFinite = true at hx
    change y.toModel.unpack.isNaN = false at hy
    change ¬ y.toModel.unpack.isFinite = true at hinf
    unfold value at h0
    generalize x.toModel.unpack = u at *
    generalize y.toModel.unpack = v at *
    cases v with
    | notANumber => cases hy
    | zero t => exact absurd rfl hinf
    | finite t n e hn => exact absurd rfl hinf
    | infinity t =>
      cases t with
      | negative =>
        simp only [valueOf, factor] at h0
        linarith
      | positive =>
        cases u with
        | notANumber => cases hx
        | infinity s => cases hx
        | zero s => rfl
        | finite s m d hm => rfl
  have hunpack : (x + y).toModel.unpack = .infinity .positive := by
    show unpack Format.binary64 (pack Format.binary64
      (UnpackedFloat.add Format.binary64 x.toModel.unpack y.toModel.unpack)) = _
    rw [hadd, unpack_pack_infinity]
  refine ⟨?_, ?_⟩
  · show (x + y).toModel.unpack.isNaN = false
    rw [hunpack]
    rfl
  · unfold value
    rw [hunpack]
    exact one_mul limit

end Addition

/-- A number divided by a finite double that is not zero makes a number. -/
theorem isNaN_div_of_isFinite {x y : Float} (hx : x.isNaN = false) (hy : y.isFinite = true)
    (h0 : value y ≠ 0) : (x / y).isNaN = false := by
  by_cases hfin : x.isFinite = true
  · exact (value_div hfin hy h0).1
  · show (unpack Format.binary64 (pack Format.binary64
      (UnpackedFloat.div Format.binary64 x.toModel.unpack y.toModel.unpack))).isNaN = false
    change x.toModel.unpack.isNaN = false at hx
    change ¬ x.toModel.unpack.isFinite = true at hfin
    change y.toModel.unpack.isFinite = true at hy
    unfold value at h0
    generalize x.toModel.unpack = u at *
    generalize y.toModel.unpack = v at *
    cases u with
    | notANumber => cases hx
    | zero s => exact absurd rfl hfin
    | finite s m e hm => exact absurd rfl hfin
    | infinity s =>
      cases v with
      | notANumber => cases hy
      | infinity t => cases hy
      | zero t => exact absurd rfl h0
      | finite t n e hn =>
        show (unpack Format.binary64 (pack Format.binary64 (.infinity (s / t)))).isNaN = false
        rw [unpack_pack_infinity]
        rfl

/-! ## 2. Counts -/

/-- A machine word as a double is the rounded number of the word. -/
theorem value_toFloat (w : UInt64) :
    w.toFloat.isNaN = false ∧ value w.toFloat = round w.toNat := by
  have h := valueOf_normalize w.toNat 0
  rwa [Int.cast_natCast, zpow_zero, mul_one] at h

/-- The grid of a count is not finer than the grid of one. -/
theorem le_gridExponent_natCast (n : Nat) : -52 ≤ gridExponent n := by
  have hlog : 0 ≤ Int.log 2 (n : ℚ) := by
    rw [Int.log_natCast]
    exact Int.natCast_nonneg _
  exact le_max_of_le_left (by omega)

/-- A count that is given by a mantissa on a finer grid is rounded like the count. -/
theorem valueOf_pack_count {n m : Nat} {e : ℤ} (hm : 0 < m) (hsize : (m : ℚ) * 2 ^ e = n)
    (he : e ≤ -52) :
    (unpack Format.binary64 (pack Format.binary64
        (roundWithAccuracy Format.binary64 .positive m e .exact))).isNaN = false ∧
      valueOf (unpack Format.binary64 (pack Format.binary64
        (roundWithAccuracy Format.binary64 .positive m e .exact))) = round n := by
  have hgrid : e ≤ gridExponent (m * 2 ^ e) := by
    rw [hsize]
    exact he.trans (le_gridExponent_natCast n)
  obtain ⟨hrounded, hval⟩ := roundWithAccuracy_exact .positive hm hgrid
  rw [hsize] at hval
  have hpack := valueOf_pack_round n.cast_nonneg hrounded hval
  rwa [show factor .positive = 1 from rfl, one_mul] at hpack

/-- The digits of a count are read as a mantissa that is shifted by 53 bits. -/
theorem ofScientific_count {n : Nat} (hn : 0 < n) :
    Float.Model.UnpackedFloat.ofScientific Format.binary64 n 0 =
      roundWithAccuracy Format.binary64 .positive (n <<< 53 * 1) (-53) .exact := by
  have hlog : ¬ (0 : ℤ) < -(2 ^ 11 + n.log2) := by omega
  unfold Float.Model.UnpackedFloat.ofScientific
  rw [dif_neg hn.ne', if_neg (by decide), if_neg hlog, if_pos le_rfl]
  rfl

theorem two_pow_lt_limit {k : Nat} (h : k < 1024) : (2 : ℚ) ^ k < limit := by
  rw [limit, ← zpow_natCast]
  exact zpow_lt_zpow_right₀ one_lt_two (by omega)

/-- Up to `2 ^ 53`, a count is not rounded. -/
theorem round_natCast {n : Nat} (h : n ≤ 2 ^ 53) : round n = n := by
  have hn : (n : ℚ) ≤ 2 ^ 53 := by exact_mod_cast h
  have hlimit : (2 : ℚ) ^ 53 ≤ limit := (two_pow_lt_limit (by norm_num)).le
  rw [round_of_nonneg n.cast_nonneg]
  rcases h.lt_or_eq with hlt | rfl
  · have hgrid : gridExponent (n : ℚ) ≤ 0 := by
      rcases Nat.eq_zero_or_pos n with rfl | hpos
      · simp [gridExponent]
      · have hlog := (Nat.log2_lt hpos.ne').2 hlt
        unfold gridExponent
        rw [Int.log_natCast, ← Nat.log2_eq_log_two]
        omega
    rw [roundToGrid_of_step hgrid (k := n) (by simp), min_eq_left (hn.trans hlimit)]
  · have hgrid : gridExponent ((2 ^ 53 : Nat) : ℚ) = 1 := by
      unfold gridExponent
      rw [Int.log_natCast, Nat.log_pow (by decide)]
      rfl
    rw [roundToGrid_of_step hgrid.le (k := 2 ^ 52) (by norm_num), min_eq_left (hn.trans hlimit)]

/-- A count below `2 ^ 64` is not rounded to an infinity. -/
theorem round_natCast_lt_limit {n : Nat} (h : n < 2 ^ 64) : round n < limit := by
  have hn : |(n : ℚ)| < 2 ^ (64 : ℤ) := by
    rw [Nat.abs_cast]
    exact_mod_cast h
  have hround := (abs_le.1 (abs_round_sub_le (by norm_num) (by norm_num) hn)).2
  rw [Nat.abs_cast] at hn
  have hroom : (2 : ℚ) ^ (64 : ℤ) + 2 ^ (64 - 54 : ℤ) ≤ 2 ^ 65 := by norm_num
  have hlimit : (2 : ℚ) ^ 65 < limit := two_pow_lt_limit (by norm_num)
  linarith

/-- **A count as a double is the rounded count.** -/
theorem value_ofNat (n : Nat) :
    (Float.ofNat n).isNaN = false ∧ value (Float.ofNat n) = round n := by
  show (Float.ofScientific n false 0).isNaN = false ∧
    value (Float.ofScientific n false 0) = round n
  unfold Float.ofScientific
  by_cases hn : n < 2 ^ 53
  · have hword : n.toUInt64.toNat = n := Nat.mod_eq_of_lt (by omega)
    obtain ⟨hnum, hval⟩ := value_toFloat n.toUInt64
    rw [hword] at hval
    have hfin : n.toUInt64.toFloat.isFinite = true := by
      rw [isFinite_iff, hval, abs_of_nonneg (round_nonneg n.cast_nonneg)]
      exact ⟨hnum, round_natCast_lt_limit (by omega)⟩
    obtain ⟨hnum', hmul⟩ := value_mul hfin (y := 1) rfl
    rw [value_one, mul_one, round_value hfin, hval] at hmul
    rw [dif_pos ⟨hn, by decide⟩]
    show (n.toUInt64.toFloat * (1 : Float)).isNaN = false ∧
      value (n.toUInt64.toFloat * (1 : Float)) = round n
    exact ⟨hnum', hmul⟩
  · have hpos : 0 < n := by omega
    have hshift : n <<< 53 * 1 = n * 2 ^ 53 := by rw [mul_one, Nat.shiftLeft_eq]
    have hmantissa : 0 < n <<< 53 * 1 := by
      rw [hshift]
      positivity
    have hsize : ((n <<< 53 * 1 : Nat) : ℚ) * 2 ^ (-53 : ℤ) = n := by
      have htwo : (2 : ℚ) ^ 53 * 2 ^ (-53 : ℤ) = 1 := by norm_num
      rw [hshift, Nat.cast_mul, Nat.cast_pow, Nat.cast_ofNat, mul_assoc, htwo, mul_one]
    have hpack := valueOf_pack_count hmantissa hsize (by norm_num)
    rw [← ofScientific_count hpos] at hpack
    rw [dif_neg fun h => hn h.1]
    exact hpack

/-- A count of something is positive and finite, if it fits into a machine word. -/
theorem ofNat_pos {n : Nat} (hn : 0 < n) (h : n < 2 ^ 64) :
    (Float.ofNat n).isFinite = true ∧ 0 < value (Float.ofNat n) := by
  obtain ⟨hnum, hval⟩ := value_ofNat n
  have hone : 1 ≤ round n := round_one ▸ round_mono (by exact_mod_cast hn)
  rw [isFinite_iff, hval, abs_of_nonneg (round_nonneg n.cast_nonneg)]
  exact ⟨⟨hnum, round_natCast_lt_limit h⟩, by linarith⟩

/-! ## 3. Sums of finite doubles -/

/-- The sum of a list from left to right, from zero. -/
def total (xs : List Float) : Float := xs.foldl (· + ·) 0

theorem total_concat (xs : List Float) (x : Float) : total (xs ++ [x]) = total xs + x :=
  List.foldl_concat ..

/-- **A sum of finite doubles is a number.** -/
theorem isNaN_total {xs : List Float} (h : ∀ x ∈ xs, x.isFinite = true) :
    (total xs).isNaN = false := by
  induction xs using List.reverseRecOn with
  | nil => rfl
  | append_singleton xs x ih =>
    rw [total_concat]
    exact isNaN_add_of_isFinite (ih fun y hy => h y (List.mem_append_left _ hy))
      (h x (List.mem_append_right _ List.mem_cons_self))

/-! ## 4. Sums of doubles that are not below zero -/

theorem value_le_limit (x : Float) : value x ≤ limit := by
  by_cases hx : x.isFinite = true
  · exact ((abs_lt.1 ((isFinite_iff x).1 hx).2).2).le
  · have hlim := limit_pos
    change ¬ x.toModel.unpack.isFinite = true at hx
    unfold value
    generalize x.toModel.unpack = u at *
    cases u with
    | notANumber => exact hlim.le
    | infinity s => cases s <;> simp only [valueOf, factor] <;> linarith
    | zero s => exact absurd rfl hx
    | finite s m e hm => exact absurd rfl hx

/-- With an infinity above zero, a sum of doubles that are not below zero is that infinity. -/
theorem add_infinity {u v : UnpackedFloat} (hu : u.isNaN = false) (hv : v.isNaN = false)
    (hu0 : 0 ≤ valueOf u) (hv0 : 0 ≤ valueOf v) (h : ¬ (u.isFinite = true ∧ v.isFinite = true)) :
    UnpackedFloat.add Format.binary64 u v = .infinity .positive := by
  have hlim := limit_pos
  have hpos : ∀ s, 0 ≤ valueOf (.infinity s) → s = .positive := by
    intro s hs
    cases s with
    | positive => rfl
    | negative =>
      simp only [valueOf, factor] at hs
      linarith
  cases u with
  | notANumber => cases hu
  | infinity s =>
    obtain rfl := hpos s hu0
    cases v with
    | notANumber => cases hv
    | infinity t =>
      obtain rfl := hpos t hv0
      rfl
    | _ => rfl
  | _ =>
    cases v with
    | notANumber => cases hv
    | infinity t =>
      obtain rfl := hpos t hv0
      rfl
    | _ => exact absurd ⟨rfl, rfl⟩ h

/-- **Nothing is rounded away from a sum of doubles that are not below zero.** -/
theorem le_add_of_nonneg {x y : Float} (hx : 0 ≤ x) (hy : 0 ≤ y) : x ≤ x + y ∧ y ≤ x + y := by
  obtain ⟨-, hxnum, hx0⟩ := (le_iff 0 x).1 hx
  obtain ⟨-, hynum, hy0⟩ := (le_iff 0 y).1 hy
  rw [value_zero] at hx0 hy0
  obtain ⟨hnum, hxle, hyle⟩ :
      (x + y).isNaN = false ∧ value x ≤ value (x + y) ∧ value y ≤ value (x + y) := by
    by_cases hfin : x.isFinite = true ∧ y.isFinite = true
    · obtain ⟨hnum, hval⟩ := value_add hfin.1 hfin.2
      rw [hval]
      refine ⟨hnum, ?_, ?_⟩
      · exact (round_value hfin.1).symm.trans_le (round_mono (by linarith))
      · exact (round_value hfin.2).symm.trans_le (round_mono (by linarith))
    · have hadd : (x + y).toModel.unpack = .infinity .positive := by
        show unpack Format.binary64 (pack Format.binary64
          (UnpackedFloat.add Format.binary64 x.toModel.unpack y.toModel.unpack)) = _
        rw [add_infinity hxnum hynum hx0 hy0 hfin, unpack_pack_infinity]
      have hval : value (x + y) = limit := by
        unfold value
        rw [hadd]
        exact one_mul limit
      refine ⟨?_, hval ▸ value_le_limit x, hval ▸ value_le_limit y⟩
      show (x + y).toModel.unpack.isNaN = false
      rw [hadd]
      rfl
  exact ⟨(le_iff _ _).2 ⟨hxnum, hnum, hxle⟩, (le_iff _ _).2 ⟨hynum, hnum, hyle⟩⟩

/-- A sum of doubles that are not below zero is not below any of them. -/
theorem mem_le_total {xs : List Float} (h : ∀ x ∈ xs, 0 ≤ x) :
    0 ≤ total xs ∧ ∀ x ∈ xs, x ≤ total xs := by
  induction xs using List.reverseRecOn with
  | nil => exact ⟨le_refl rfl, by simp⟩
  | append_singleton xs x ih =>
    obtain ⟨h0, hle⟩ := ih fun y hy => h y (List.mem_append_left _ hy)
    obtain ⟨hle₁, hle₂⟩ := le_add_of_nonneg h0 (h x (List.mem_append_right _ List.mem_cons_self))
    rw [total_concat]
    refine ⟨le_trans h0 hle₁, fun y hy => ?_⟩
    rcases List.mem_append.1 hy with hy | hy
    · exact le_trans (hle y hy) hle₁
    · rw [List.mem_singleton.1 hy]
      exact hle₂

/-- **A sum of doubles that are not below zero is zero only if all of them are.** -/
theorem total_beq_zero_iff {xs : List Float} (h : ∀ x ∈ xs, 0 ≤ x) :
    (total xs == 0) = true ↔ ∀ x ∈ xs, (x == 0) = true := by
  constructor
  · intro hzero x hx
    exact beq_of_le_of_le (le_trans ((mem_le_total h).2 x hx) (le_of_beq hzero)) (h x hx)
  · intro hzero
    induction xs using List.reverseRecOn with
    | nil => rfl
    | append_singleton xs x ih =>
      have hxs : (total xs == 0) = true := ih (fun y hy => h y (List.mem_append_left _ hy))
        fun y hy => hzero y (List.mem_append_left _ hy)
      have hx := hzero x (List.mem_append_right _ List.mem_cons_self)
      obtain ⟨hxsnum, -, hxsval⟩ := (beq_iff _ _).1 hxs
      obtain ⟨hxnum, -, hxval⟩ := (beq_iff _ _).1 hx
      rw [value_zero] at hxsval hxval
      have hfin : ∀ y : Float, y.isNaN = false → value y = 0 → y.isFinite = true :=
        fun y hy hval => isFinite_of_abs_le_one hy (by rw [hval, abs_zero]; exact zero_le_one)
      obtain ⟨hnum, hval⟩ := value_add (hfin _ hxsnum hxsval) (hfin _ hxnum hxval)
      rw [hxsval, hxval, add_zero, round_zero] at hval
      rw [total_concat]
      exact (beq_iff _ _).2 ⟨hnum, rfl, hval⟩

/-! ## 5. Sums of memberships -/

/-- From `2 ^ 53` on, a membership is rounded away. So this is as far as a sum gets. -/
theorem round_two_pow_add_one : round (2 ^ 53 + 1) = 2 ^ 53 := by
  have hgrid : gridExponent (2 ^ 53 + 1 : ℚ) = 1 := by
    have hlog : Int.log 2 (2 ^ 53 + 1 : ℚ) = 53 :=
      log_eq (by norm_num) (by norm_num)
    unfold gridExponent
    rw [hlog]
    rfl
  have hsteps : nearestEven ((2 ^ 53 + 1 : ℚ) / 2 ^ (1 : ℤ)) = 2 ^ 52 := by
    have hfloor : ⌊(2 ^ 53 + 1 : ℚ) / 2 ^ (1 : ℤ)⌋ = 2 ^ 52 := by
      rw [Int.floor_eq_iff]
      norm_num
    unfold nearestEven
    rw [hfloor]
    norm_num
  have hlimit : (2 : ℚ) ^ 53 ≤ limit := (two_pow_lt_limit (by norm_num)).le
  have hround : roundToGrid (2 ^ 53 + 1) = 2 ^ 53 := by
    rw [roundToGrid, hgrid, hsteps]
    norm_num
  rw [round_of_nonneg (by norm_num), hround, min_eq_left hlimit]

/-- **A sum of memberships is finite**, however many there are. -/
theorem value_total_le {ms : List Float} (h : ∀ m ∈ ms, InUnit m) :
    (total ms).isFinite = true ∧ value (total ms) ≤ 2 ^ 53 := by
  induction ms using List.reverseRecOn with
  | nil => exact ⟨rfl, value_zero.trans_le (by norm_num)⟩
  | append_singleton ms m ih =>
    obtain ⟨hfin, hle⟩ := ih fun x hx => h x (List.mem_append_left _ hx)
    have hm := h m (List.mem_append_right _ List.mem_cons_self)
    obtain ⟨hnum, hval⟩ := value_add hfin (isFinite_of_inUnit hm)
    have hmax : value (total (ms ++ [m])) ≤ 2 ^ 53 := by
      rw [total_concat, hval, ← round_two_pow_add_one]
      exact round_mono (by linarith [((inUnit_iff m).1 hm).2.2])
    obtain ⟨-, -, h0⟩ := (le_iff _ _).1 (mem_le_total fun x hx => (h x hx).1).1
    rw [value_zero] at h0
    have hlimit : (2 : ℚ) ^ 53 < limit := two_pow_lt_limit (by norm_num)
    refine ⟨(isFinite_iff _).2 ⟨total_concat ms m ▸ hnum, ?_⟩, hmax⟩
    rw [abs_of_nonneg h0]
    exact hmax.trans_lt hlimit

end FuzzyControl.Double
