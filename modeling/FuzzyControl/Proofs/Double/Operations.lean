import FuzzyControl.Proofs.Double.Arithmetic

/-!
# Sums, products and quotients of finite doubles

Like a difference, each of them is the rounded result of the same operation on numbers. A product of
two mantissas is exact before it is rounded. A quotient is cut off at a point below its own grid, and
two residual bits keep what was cut off.

* `value_add`, `value_mul`, `value_div`: the number that an operation gives;
* `isFinite_iff`: the finite doubles are those inside of `limit`;
* `value_le_of_lt`: a double is below a greater one by at least one part in `2 ^ 53`;
* `value_sub_of_infinite`, `isNaN_div`: what is not finite does not come back.
-/

namespace FuzzyControl.Double

open Float.Model (Format UnpackedFloat totalExponent)
open Float.Model.UnpackedFloat hiding round normalize

/-- The form of a positive number that has been rounded is packed with its sign. -/
theorem valueOf_pack_round {w : UnpackedFloat} {s : Sign} {q : ℚ} (hq : 0 ≤ q) (hw : Rounded w)
    (h : valueOf w = factor s * roundToGrid q) :
    (unpack Format.binary64 (pack Format.binary64 w)).isNaN = false ∧
      valueOf (unpack Format.binary64 (pack Format.binary64 w)) = round (factor s * q) := by
  have hround : factor s * min (roundToGrid q) limit = round (factor s * q) := by
    rw [← round_of_nonneg hq]
    cases s
    · show -1 * round q = round (-1 * q)
      rw [neg_one_mul, neg_one_mul, round_neg]
    · show 1 * round q = round (1 * q)
      rw [one_mul, one_mul]
  rw [← hround]
  exact valueOf_pack hw (roundToGrid_nonneg hq) h

/-- A zero is packed as the number zero. -/
theorem valueOf_pack_zero (s : Sign) {q : ℚ} (hq : q = 0) :
    (unpack Format.binary64 (pack Format.binary64 (.zero s))).isNaN = false ∧
      valueOf (unpack Format.binary64 (pack Format.binary64 (.zero s))) = round q := by
  rw [unpack_pack_zero, hq, round_zero]
  exact ⟨rfl, rfl⟩

/-! ## 1. Sums -/

theorem neg_neg_sign (s : Sign) : - -s = s := by
  cases s <;> rfl

theorem apply_neg_sign (s : Sign) (n : ℤ) : (-s).apply n = -s.apply n := by
  cases s
  · exact (neg_neg n).symm
  · rfl

/-- A sum is the difference from the negative. -/
theorem add_eq_sub_neg (u v : UnpackedFloat) :
    UnpackedFloat.add Format.binary64 u v = UnpackedFloat.sub Format.binary64 u v.neg := by
  cases u <;> cases v <;>
    simp only [UnpackedFloat.add, UnpackedFloat.sub, UnpackedFloat.neg, neg_neg_sign,
      apply_neg_sign, sub_neg_eq_add]

theorem value_add {x y : Float} (hx : x.isFinite = true) (hy : y.isFinite = true) :
    (x + y).isNaN = false ∧ value (x + y) = round (value x + value y) := by
  have hcanonical : Canonical y.toModel.unpack.neg := by
    have h := canonical y
    generalize y.toModel.unpack = v at h
    cases v <;> exact h
  have hfinite : y.toModel.unpack.neg.isFinite = true := by
    have h : y.toModel.unpack.isFinite = true := hy
    generalize y.toModel.unpack = v at h
    cases v <;> exact h
  have hneg : valueOf y.toModel.unpack.neg = -value y := by
    unfold value
    generalize y.toModel.unpack = v
    cases v <;> simp [UnpackedFloat.neg, valueOf, factor_neg]
  have h := valueOf_sub (canonical x) hcanonical hx hfinite
  rw [← add_eq_sub_neg, hneg, sub_neg_eq_add] at h
  exact h

/-! ## 2. Products -/

theorem factor_mul (s t : Sign) : factor (s * t) = factor s * factor t := by
  cases s <;> cases t <;> simp [factor]

/-- The product of two mantissas is not above the grid of the product: one of them has 53 bits, or
both are on the least grid. -/
theorem exponent_le_gridExponent {m n : Nat} {d e : ℤ} (hm : 0 < m) (hn : 0 < n)
    (hd : 2 ^ 52 ≤ m ∨ d = -1074) (he : 2 ^ 52 ≤ n ∨ e = -1074) :
    d + e ≤ gridExponent ((m * n : Nat) * 2 ^ (d + e)) := by
  have hmn : 0 < m * n := Nat.mul_pos hm hn
  unfold gridExponent
  rw [log_size hmn]
  by_cases hbits : 2 ^ 52 ≤ m * n
  · have hlog := (Nat.le_log2 hmn.ne').2 hbits
    omega
  · have hd' : d = -1074 := hd.resolve_left fun h => hbits (h.trans (Nat.le_mul_of_pos_right m hn))
    have he' : e = -1074 := he.resolve_left fun h => hbits (h.trans (Nat.le_mul_of_pos_left n hm))
    omega

theorem valueOf_mul {u v : UnpackedFloat} (hu : Canonical u) (hv : Canonical v)
    (fu : u.isFinite = true) (fv : v.isFinite = true) :
    (unpack Format.binary64 (pack Format.binary64
        (UnpackedFloat.mul Format.binary64 u v))).isNaN = false ∧
      valueOf (unpack Format.binary64 (pack Format.binary64
        (UnpackedFloat.mul Format.binary64 u v))) = round (valueOf u * valueOf v) := by
  cases u with
  | notANumber => cases fu
  | infinity s => cases fu
  | zero s =>
    cases v with
    | notANumber => cases fv
    | infinity t => cases fv
    | zero t => exact valueOf_pack_zero (s * t) (zero_mul _)
    | finite t n e hn => exact valueOf_pack_zero (s * t) (zero_mul _)
  | finite s m d hm =>
    cases v with
    | notANumber => cases fv
    | infinity t => cases fv
    | zero t => exact valueOf_pack_zero (s * t) (mul_zero _)
    | finite t n e hn =>
      have hmn : 0 < m * n := Nat.mul_pos hm hn
      have hval : valueOf (.finite s m d hm) * valueOf (.finite t n e hn) =
          factor (s * t) * ((m * n : Nat) * 2 ^ (d + e)) := by
        simp only [valueOf]
        rw [factor_mul, zpow_add₀ two_ne_zero]
        push_cast
        ring
      obtain ⟨hr, hround⟩ := roundWithAccuracy_exact (s * t) hmn
        (exponent_le_gridExponent hm hn hu.2.2.2 hv.2.2.2)
      rw [hval]
      exact valueOf_pack_round (size_pos hmn _).le hr hround

theorem value_mul {x y : Float} (hx : x.isFinite = true) (hy : y.isFinite = true) :
    (x * y).isNaN = false ∧ value (x * y) = round (value x * value y) :=
  valueOf_mul (canonical x) (canonical y) hx hy

/-! ## 3. Quotients -/

theorem factor_div (s t : Sign) : factor (s / t) = factor s / factor t := by
  cases s <;> cases t <;> simp [factor] <;> rfl

/-- The comparison of twice the rest with the divisor says where a fraction stands. -/
theorem locates_fraction (f : Nat) {r n : Nat} (hr : r < n) :
    Locates (ExtendedMantissa.ofMantissaAndAccuracy f (accuracyOfFraction r n)) (f + r / n) := by
  have hn : (0 : ℚ) < n := by exact_mod_cast (Nat.zero_le r).trans_lt hr
  have hlt : (r : ℚ) / n < 1 := (div_lt_one hn).2 (by exact_mod_cast hr)
  unfold accuracyOfFraction
  split_ifs with h0
  · rw [h0, Nat.cast_zero, zero_div, add_zero]
    exact locates_exact f
  · have hpos : (0 : ℚ) < r / n := div_pos (by exact_mod_cast Nat.pos_of_ne_zero h0) hn
    rcases lt_trichotomy (2 * r) n with h | h | h
    · have hhalf : (r : ℚ) / n < 1 / 2 := by
        rw [div_lt_div_iff₀ hn two_pos]
        exact_mod_cast (by omega : r * 2 < 1 * n)
      rw [Nat.compare_eq_lt.2 h]
      generalize (r : ℚ) / n = y at *
      constructor <;> simp only [ExtendedMantissa.ofMantissaAndAccuracy]
      · linarith
      · linarith
      · simpa using hhalf
      · exact iff_of_true trivial ⟨fun h => by linarith, fun h => by linarith⟩
    · have hhalf : (r : ℚ) / n = 1 / 2 := by
        rw [div_eq_div_iff hn.ne' two_ne_zero]
        exact_mod_cast (by omega : r * 2 = 1 * n)
      rw [Nat.compare_eq_eq.2 h, hhalf]
      constructor <;> simp only [ExtendedMantissa.ofMantissaAndAccuracy] <;> norm_num
    · have hhalf : 1 / 2 < (r : ℚ) / n := by
        rw [div_lt_div_iff₀ two_pos hn]
        exact_mod_cast (by omega : 1 * n < r * 2)
      rw [Nat.compare_eq_gt.2 h]
      generalize (r : ℚ) / n = y at *
      constructor <;> simp only [ExtendedMantissa.ofMantissaAndAccuracy]
      · linarith
      · linarith
      · simpa using hhalf.le
      · exact iff_of_true trivial ⟨fun h => by linarith, fun h => by linarith⟩

/-- An integer quotient and its rest locate the quotient. -/
theorem locates_div (a : Nat) {n : Nat} (hn : 0 < n) :
    Locates (ExtendedMantissa.ofMantissaAndAccuracy (a / n) (accuracyOfFraction (a % n) n))
      ((a : ℚ) / n) := by
  have hn' : (n : ℚ) ≠ 0 := by exact_mod_cast hn.ne'
  have hsplit : (a : ℚ) / n = (a / n : Nat) + (a % n : Nat) / n := by
    have hrest : (n : ℚ) * (a / n : Nat) + (a % n : Nat) = a := by
      exact_mod_cast Nat.div_add_mod a n
    field_simp
    linarith
  rw [hsplit]
  exact locates_fraction (a / n) (Nat.mod_lt a hn)

/-- The exponent that a quotient is computed at is not above its grid. -/
theorem targetExponent_le_gridExponent {m n : Nat} {d e : ℤ} (hm : 0 < m) (hn : 0 < n) :
    Format.binary64.targetExponent (totalExponent m d - totalExponent n e) ≤
      gridExponent (m * 2 ^ d / (n * 2 ^ e)) := by
  have hlo : (2 : ℚ) ^ ((m.log2 : ℤ) + d) ≤ m * 2 ^ d := by
    rw [← log_size hm d]
    simpa using Int.zpow_log_le_self one_lt_two (size_pos hm d)
  have hup : (n : ℚ) * 2 ^ e ≤ 2 ^ ((n.log2 : ℤ) + e + 1) := by
    rw [← log_size hn e]
    simpa using (Int.lt_zpow_succ_log_self one_lt_two ((n : ℚ) * 2 ^ e)).le
  have hpos : (0 : ℚ) < m * 2 ^ d / (n * 2 ^ e) := div_pos (size_pos hm d) (size_pos hn e)
  have hlog : (m.log2 : ℤ) + d - (n.log2 + e + 1) ≤ Int.log 2 ((m : ℚ) * 2 ^ d / (n * 2 ^ e)) := by
    rw [← Int.zpow_le_iff_le_log one_lt_two hpos, Nat.cast_ofNat, zpow_sub₀ two_ne_zero]
    exact div_le_div₀ (size_pos hm d).le hlo (size_pos hn e) hup
  show max ((m.log2 : ℤ) + 1 + d - ((n.log2 : ℤ) + 1 + e) - 53) (-1074) ≤ _
  unfold gridExponent
  omega

theorem valueOf_div {u v : UnpackedFloat} (fu : u.isFinite = true) (fv : v.isFinite = true)
    (h0 : valueOf v ≠ 0) :
    (unpack Format.binary64 (pack Format.binary64
        (UnpackedFloat.div Format.binary64 u v))).isNaN = false ∧
      valueOf (unpack Format.binary64 (pack Format.binary64
        (UnpackedFloat.div Format.binary64 u v))) = round (valueOf u / valueOf v) := by
  cases v with
  | notANumber => cases fv
  | infinity t => cases fv
  | zero t => exact absurd rfl h0
  | finite t n e hn =>
    cases u with
    | notANumber => cases fu
    | infinity s => cases fu
    | zero s => exact valueOf_pack_zero (s / t) (zero_div _)
    | finite s m d hm =>
      have hpos : (0 : ℚ) < m * 2 ^ d / (n * 2 ^ e) := div_pos (size_pos hm d) (size_pos hn e)
      have hval : valueOf (.finite s m d hm) / valueOf (.finite t n e hn) =
          factor (s / t) * (m * 2 ^ d / (n * 2 ^ e)) := by
        simp only [valueOf]
        rw [factor_div, mul_div_mul_comm]
      have hgrid := (min_le_right (d - e) _).trans (targetExponent_le_gridExponent hm hn
        (d := d) (e := e))
      have hshift := min_le_left (d - e)
        (Format.binary64.targetExponent (totalExponent m d - totalExponent n e))
      unfold UnpackedFloat.div divCore
      simp only
      generalize min (d - e)
        (Format.binary64.targetExponent (totalExponent m d - totalExponent n e)) = g at *
      have hquot : ((m <<< (d - e - g).toNat : Nat) : ℚ) / n = m * 2 ^ d / (n * 2 ^ e) / 2 ^ g := by
        rw [Nat.shiftLeft_eq, Nat.cast_mul, Nat.cast_pow, Nat.cast_ofNat, ← zpow_natCast,
          Int.toNat_of_nonneg (by omega), zpow_sub₀ two_ne_zero, zpow_sub₀ two_ne_zero]
        field_simp
      have hlocates := locates_div (m <<< (d - e - g).toNat) hn
      rw [hquot] at hlocates
      obtain ⟨hr, hround⟩ := roundWithAccuracy_locates (s / t) hpos hlocates hgrid
      rw [hval]
      exact valueOf_pack_round hpos.le hr hround

/-- The quotient of finite doubles is the rounded quotient of their numbers, unless it is by
zero. -/
theorem value_div {x y : Float} (hx : x.isFinite = true) (hy : y.isFinite = true)
    (h0 : value y ≠ 0) :
    (x / y).isNaN = false ∧ value (x / y) = round (value x / value y) :=
  valueOf_div hx hy h0

/-! ## 4. Finite doubles -/

/-- The finite doubles are the numbers inside of the limit. -/
theorem isFinite_iff (x : Float) : x.isFinite = true ↔ x.isNaN = false ∧ |value x| < limit := by
  have hlim := limit_pos
  have hcanonical := canonical x
  show x.toModel.unpack.isFinite = true ↔ x.toModel.unpack.isNaN = false ∧ |value x| < limit
  unfold value
  generalize x.toModel.unpack = u at *
  cases u with
  | notANumber => exact iff_of_false nofun fun h => nomatch h.1
  | infinity s =>
    refine iff_of_false nofun fun h => ?_
    obtain ⟨h1, h2⟩ := abs_lt.1 h.2
    cases s <;> simp only [valueOf, factor] at h1 h2 <;> linarith
  | zero s => exact iff_of_true rfl ⟨rfl, by simpa [valueOf] using hlim⟩
  | finite s m e hm =>
    obtain ⟨h1, -, h3, -⟩ := hcanonical
    have hlt := size_lt_limit h1 h3
    have hpos := size_pos hm e
    refine iff_of_true rfl ⟨rfl, abs_lt.2 ?_⟩
    cases s <;> simp only [valueOf, factor] <;> constructor <;> linarith

theorem isFinite_of_abs_le_one {x : Float} (hx : x.isNaN = false) (h : |value x| ≤ 1) :
    x.isFinite = true :=
  (isFinite_iff x).2 ⟨hx, h.trans_lt one_lt_limit⟩

/-- The number of a finite double is not rounded. -/
theorem round_value {x : Float} (h : x.isFinite = true) : round (value x) = value x :=
  round_valueOf (canonical x) h

theorem round_one : round 1 = 1 := by
  have h := round_value (x := 1) rfl
  rwa [value_one] at h

/-- A number between two finite doubles is rounded to a finite one. -/
theorem isFinite_of_le {x y z : Float} (hx : x.isFinite = true) (hz : z.isFinite = true)
    (hy : y.isNaN = false) (h : value x ≤ value y) (h' : value y ≤ value z) :
    y.isFinite = true := by
  rw [isFinite_iff] at hx hz ⊢
  refine ⟨hy, abs_lt.2 ⟨?_, ?_⟩⟩
  · linarith [(abs_lt.1 hx.2).1]
  · linarith [(abs_lt.1 hz.2).2]

/-- An infinity, or what is no number, is packed as such. -/
theorem isFinite_pack {u : UnpackedFloat} (h : u.isFinite = false) :
    (unpack Format.binary64 (pack Format.binary64 u)).isFinite = false := by
  cases u with
  | notANumber => rfl
  | infinity s =>
    rw [unpack_pack_infinity]
    rfl
  | zero s => cases h
  | finite s m e hm => cases h

/-- If a difference is finite, nothing infinite was subtracted or subtracted from. -/
theorem isFinite_of_sub {x y : Float} (h : (x - y).isFinite = true) :
    x.isFinite = true ∧ y.isFinite = true := by
  change (unpack Format.binary64 (pack Format.binary64
    (UnpackedFloat.sub Format.binary64 x.toModel.unpack y.toModel.unpack))).isFinite = true at h
  show x.toModel.unpack.isFinite = true ∧ y.toModel.unpack.isFinite = true
  generalize x.toModel.unpack = u at *
  generalize y.toModel.unpack = v at *
  by_contra hnot
  -- what is left of an infinity is an infinity or no number
  have hsub : (UnpackedFloat.sub Format.binary64 u v).isFinite = false := by
    cases u with
    | notANumber => rfl
    | infinity s =>
      cases v with
      | infinity t => cases s <;> cases t <;> rfl
      | _ => rfl
    | _ =>
      cases v with
      | notANumber => rfl
      | infinity t => rfl
      | _ => exact absurd ⟨rfl, rfl⟩ hnot
  rw [isFinite_pack hsub] at h
  cases h

/-- Every double is a multiple of the least positive one. -/
theorem exists_multiple {x : Float} (hx : x.isFinite = true) :
    ∃ k : ℤ, value x = k * 2 ^ (-1074 : ℤ) := by
  have hcanonical := canonical x
  change x.toModel.unpack.isFinite = true at hx
  unfold value
  generalize x.toModel.unpack = u at *
  cases u with
  | notANumber => cases hx
  | infinity s => cases hx
  | zero s => exact ⟨0, by rw [Int.cast_zero, zero_mul]; rfl⟩
  | finite s m e hm =>
    obtain ⟨i, hi⟩ := Int.eq_ofNat_of_zero_le (Int.sub_nonneg_of_le hcanonical.2.1)
    have hsize : (m : ℚ) * 2 ^ e = (m * 2 ^ i : Nat) * 2 ^ (-1074 : ℤ) := by
      rw [show e = i + -1074 by omega, zpow_add₀ two_ne_zero, zpow_natCast, ← mul_assoc,
        Nat.cast_mul, Nat.cast_pow, Nat.cast_ofNat]
    cases s <;> simp only [valueOf, factor, hsize]
    · exact ⟨-(m * 2 ^ i : Nat), by rw [Int.cast_neg, Int.cast_natCast, neg_one_mul, neg_mul]⟩
    · exact ⟨(m * 2 ^ i : Nat), by rw [Int.cast_natCast, one_mul]⟩

/-- **Doubles that differ have a difference**: it is not rounded to zero. -/
theorem value_sub_pos {x y : Float} (hx : x.isFinite = true) (hy : y.isFinite = true)
    (h : value x < value y) : 0 < value (y - x) := by
  obtain ⟨k, hk⟩ := exists_multiple hx
  obtain ⟨l, hl⟩ := exists_multiple hy
  have hstep : (0 : ℚ) < 2 ^ (-1074 : ℤ) := by positivity
  have hle : (2 : ℚ) ^ (-1074 : ℤ) ≤ value y - value x := by
    rw [hk, hl] at h ⊢
    have hlt : k < l := by exact_mod_cast lt_of_mul_lt_mul_right h hstep.le
    have hone : (1 : ℚ) ≤ l - k := by exact_mod_cast Int.le_sub_left_of_add_le (by omega : k + 1 ≤ l)
    calc (2 : ℚ) ^ (-1074 : ℤ) = 1 * 2 ^ (-1074 : ℤ) := (one_mul _).symm
      _ ≤ (l - k) * 2 ^ (-1074 : ℤ) := by gcongr
      _ = l * 2 ^ (-1074 : ℤ) - k * 2 ^ (-1074 : ℤ) := sub_mul _ _ _
  rw [(value_sub hy hx).2, round_of_nonneg (by linarith)]
  exact lt_min (roundToGrid_pos hle) limit_pos

/-- **A sum of doubles that is not below zero was not below it before it was rounded.** -/
theorem add_nonneg_of_round {x y : Float} (hx : x.isFinite = true) (hy : y.isFinite = true)
    (h : 0 ≤ round (value x + value y)) : 0 ≤ value x + value y := by
  obtain ⟨k, hk⟩ := exists_multiple hx
  obtain ⟨l, hl⟩ := exists_multiple hy
  have hstep : (0 : ℚ) < 2 ^ (-1074 : ℤ) := by positivity
  by_contra hneg
  rw [not_le] at hneg
  have hle : (2 : ℚ) ^ (-1074 : ℤ) ≤ -(value x + value y) := by
    rw [hk, hl, ← add_mul] at hneg ⊢
    have hlt : k + l < 0 := by exact_mod_cast neg_of_mul_neg_left hneg hstep.le
    have hone : (1 : ℚ) ≤ -(k + l) := by exact_mod_cast (by omega : 1 ≤ -(k + l))
    calc (2 : ℚ) ^ (-1074 : ℤ) = 1 * 2 ^ (-1074 : ℤ) := (one_mul _).symm
      _ ≤ -(k + l) * 2 ^ (-1074 : ℤ) := by gcongr
      _ = -((k + l) * 2 ^ (-1074 : ℤ)) := neg_mul _ _
  have hpos := lt_min (roundToGrid_pos hle) limit_pos
  rw [← round_of_nonneg (by linarith), round_neg] at hpos
  linarith

/-- The least double of full precision. -/
def leastNormal : Float := .ofBits 0x0010000000000000

theorem value_leastNormal : value leastNormal = 2 ^ (-1022 : ℤ) := by
  have h : value leastNormal = 1 * ((2 ^ 52 : Nat) * 2 ^ (-1074 : ℤ)) := rfl
  rw [h, one_mul, Nat.cast_pow, Nat.cast_ofNat, ← zpow_natCast, ← zpow_add₀ two_ne_zero]
  rfl

/-- Of two mantissas on their grids, the smaller one leaves at least one part in `2 ^ 53`. -/
theorem size_le_of_lt {m n : Nat} {d e : ℤ} (hm : m < 2 ^ 53) (hn : n < 2 ^ 53) (hd : -1074 ≤ d)
    (he : 2 ^ 52 ≤ n ∨ e = -1074) (h : (m : ℚ) * 2 ^ d < n * 2 ^ e) :
    (m : ℚ) * 2 ^ d ≤ (1 - 2 ^ (-53 : ℤ)) * (n * 2 ^ e) := by
  rw [← mul_assoc]
  rcases lt_or_ge d e with hlt | hge
  · -- on a smaller grid there are at most `2 ^ 53 - 1` steps, which are half as large
    have hm' : (m : ℚ) ≤ 2 ^ 53 - 1 := by
      have h' : ((m + 1 : Nat) : ℚ) ≤ (2 ^ 53 : Nat) := Nat.cast_le.2 hm
      push_cast at h'
      linarith
    have hn' : (2 : ℚ) ^ 52 ≤ n := by exact_mod_cast he.resolve_right (by omega)
    calc (m : ℚ) * 2 ^ d ≤ (2 ^ 53 - 1) * 2 ^ (e - 1) := by gcongr <;> [norm_num; omega]
      _ = (1 - 2 ^ (-53 : ℤ)) * 2 ^ 52 * 2 ^ e := by
        rw [zpow_sub_one₀ two_ne_zero]
        norm_num
        ring
      _ ≤ (1 - 2 ^ (-53 : ℤ)) * n * 2 ^ e := by gcongr
  · -- on a larger or equal grid, the number of its steps is an integer less than `n`
    obtain ⟨k, hk⟩ := Int.eq_ofNat_of_zero_le (Int.sub_nonneg_of_le hge)
    have hsteps : (m : ℚ) * 2 ^ d = (m * 2 ^ k : Nat) * 2 ^ e := by
      rw [show d = e + k by omega, zpow_add₀ two_ne_zero, zpow_natCast]
      push_cast
      ring
    have htwo : (0 : ℚ) < 2 ^ e := by positivity
    rw [hsteps] at h ⊢
    have hlt : m * 2 ^ k < n := by exact_mod_cast lt_of_mul_lt_mul_right h htwo.le
    have hle : ((m * 2 ^ k : Nat) : ℚ) ≤ n - 1 := by
      have h' : ((m * 2 ^ k + 1 : Nat) : ℚ) ≤ n := Nat.cast_le.2 hlt
      push_cast at h' ⊢
      linarith
    have hpart : (2 : ℚ) ^ (-53 : ℤ) * n ≤ 1 := by
      have hn' : (n : ℚ) ≤ 2 ^ 53 := by exact_mod_cast hn.le
      calc (2 : ℚ) ^ (-53 : ℤ) * n ≤ 2 ^ (-53 : ℤ) * 2 ^ 53 := by gcongr
        _ = 1 := by norm_num
    gcongr
    linarith

/-- The mantissa and the exponent of a positive double. -/
theorem exists_size {x : Float} (hx : x.isFinite = true) (h : 0 < value x) :
    ∃ (m : Nat) (e : ℤ), m < 2 ^ 53 ∧ -1074 ≤ e ∧ (2 ^ 52 ≤ m ∨ e = -1074) ∧
      value x = m * 2 ^ e := by
  have hcanonical := canonical x
  change x.toModel.unpack.isFinite = true at hx
  unfold value at h ⊢
  generalize x.toModel.unpack = u at *
  cases u with
  | notANumber => cases hx
  | infinity s => cases hx
  | zero s => exact absurd h (lt_irrefl 0)
  | finite s m e hm =>
    obtain ⟨h1, h2, -, h4⟩ := hcanonical
    have hpos := size_pos hm e
    cases s <;> simp only [valueOf, factor] at h ⊢
    · exfalso
      linarith
    · exact ⟨m, e, h1, h2, h4, one_mul _⟩

/-- **A double is below a greater one by at least one part in `2 ^ 53`.** -/
theorem value_le_of_lt {x y : Float} (hy : y.isFinite = true) (h : x < y) (h0 : 0 ≤ value x) :
    value x ≤ (1 - 2 ^ (-53 : ℤ)) * value y := by
  obtain ⟨hxnum, -, hlt⟩ := (lt_iff x y).1 h
  obtain ⟨n, e, hn, -, hgrid, hvaly⟩ := exists_size hy (h0.trans_lt hlt)
  rcases h0.eq_or_lt with hzero | hpos
  · have hpart : (0 : ℚ) ≤ 1 - 2 ^ (-53 : ℤ) := by norm_num
    rw [← hzero]
    exact mul_nonneg hpart (by linarith)
  · have hx := isFinite_of_le (x := 0) rfl hy hxnum h0 hlt.le
    obtain ⟨m, d, hm, hd, -, hvalx⟩ := exists_size hx hpos
    rw [hvalx, hvaly] at hlt ⊢
    exact size_le_of_lt hm hn hd hgrid hlt

/-! ## 5. Doubles that are not finite -/

/-- An infinity is infinitely far from every finite double. -/
theorem value_sub_of_infinite {x y : Float} (hx : x.isNaN = false) (hinf : x.isFinite = false)
    (hy : y.isFinite = true) : (y - x).isNaN = false ∧ |value (y - x)| = limit := by
  show (unpack Format.binary64 (pack Format.binary64
      (UnpackedFloat.sub Format.binary64 y.toModel.unpack x.toModel.unpack))).isNaN = false ∧
    |valueOf (unpack Format.binary64 (pack Format.binary64
      (UnpackedFloat.sub Format.binary64 y.toModel.unpack x.toModel.unpack)))| = limit
  change x.toModel.unpack.isNaN = false at hx
  change x.toModel.unpack.isFinite = false at hinf
  change y.toModel.unpack.isFinite = true at hy
  generalize x.toModel.unpack = u at *
  generalize y.toModel.unpack = v at *
  cases u with
  | notANumber => cases hx
  | zero s => cases hinf
  | finite s m e hm => cases hinf
  | infinity s =>
    have hsub : UnpackedFloat.sub Format.binary64 v (.infinity s) = .infinity (-s) := by
      cases v with
      | notANumber => cases hy
      | infinity t => cases hy
      | zero t => rfl
      | finite t n e hn => rfl
    have hone : |factor (-s)| = 1 := by
      rw [factor_neg, abs_neg]
      cases s <;> simp [factor]
    rw [hsub, unpack_pack_infinity]
    refine ⟨rfl, ?_⟩
    rw [valueOf, abs_mul, hone, one_mul, abs_of_pos limit_pos]

/-- What is not finite does not become finite by a factor. -/
theorem isFinite_mul {x : Float} (hx : x.isFinite = false) (y : Float) :
    (x * y).isFinite = false := by
  show (unpack Format.binary64 (pack Format.binary64
    (UnpackedFloat.mul Format.binary64 x.toModel.unpack y.toModel.unpack))).isFinite = false
  change x.toModel.unpack.isFinite = false at hx
  generalize x.toModel.unpack = u at *
  generalize y.toModel.unpack = v
  refine isFinite_pack ?_
  cases u with
  | notANumber => cases v <;> rfl
  | infinity s => cases v <;> rfl
  | zero s => cases hx
  | finite s m e hm => cases hx

/-- Two doubles that are not finite have no quotient. -/
theorem isNaN_div {x y : Float} (hx : x.isFinite = false) (hy : y.isFinite = false) :
    (x / y).isNaN = true := by
  show (unpack Format.binary64 (pack Format.binary64
    (UnpackedFloat.div Format.binary64 x.toModel.unpack y.toModel.unpack))).isNaN = true
  change x.toModel.unpack.isFinite = false at hx
  change y.toModel.unpack.isFinite = false at hy
  generalize x.toModel.unpack = u at *
  generalize y.toModel.unpack = v at *
  have hdiv : UnpackedFloat.div Format.binary64 u v = .notANumber := by
    cases u with
    | notANumber => cases v <;> rfl
    | infinity s =>
      cases v with
      | notANumber => rfl
      | infinity t => rfl
      | zero t => cases hy
      | finite t n e hn => cases hy
    | zero s => cases hx
    | finite s m e hm => cases hx
  rw [hdiv]
  rfl

/-- A sum with what is no number is none. -/
theorem isNaN_add (x : Float) {y : Float} (hy : y.isNaN = true) : (x + y).isNaN = true := by
  show (unpack Format.binary64 (pack Format.binary64
    (UnpackedFloat.add Format.binary64 x.toModel.unpack y.toModel.unpack))).isNaN = true
  have hadd : UnpackedFloat.add Format.binary64 x.toModel.unpack y.toModel.unpack =
      .notANumber := by
    rw [eq_notANumber hy]
    cases x.toModel.unpack <;> rfl
  rw [hadd]
  rfl

end FuzzyControl.Double
