import FuzzyControl.Proofs.Double.Alike
import FuzzyControl.Proofs.Double.Errors

/-!
# Counts and doubles

A double is made a count by dropping what follows the point: its mantissa is shifted to the exponent
zero. What is left is again a double, since from `2 ^ 52` on no double has anything after the point.
The way back, from a count to a double, rounds; but the rounded count is still a whole number.

* `exists_int_round`: large numbers are rounded to whole ones; `exists_int_toFloat`: so are counts;
* `toNat_toUInt64`: a double that is not below zero is made the count of its whole part;
  `toNat_toUInt64_eq_floor`: any other one is made zero;
* `value_toFloat_toUInt64`: and this count is a double without being rounded.
-/

namespace FuzzyControl.Double

open Float.Model (Format UnpackedFloat)
open Float.Model.UnpackedFloat hiding round normalize

/-! ## 1. Whole numbers -/

/-- From `2 ^ 52` on, numbers are rounded to whole ones. -/
theorem exists_int_round {q : ℚ} (h : 2 ^ 52 ≤ q) (hlimit : round q < limit) :
    ∃ k : ℤ, round q = k := by
  have hpos : 0 < q := by linarith
  have hgrid : 0 ≤ gridExponent q := le_gridExponent hpos (by simpa using h)
  obtain ⟨i, hi⟩ := Int.eq_ofNat_of_zero_le hgrid
  refine ⟨nearestEven (q / 2 ^ gridExponent q) * 2 ^ i, ?_⟩
  rw [← roundToGrid_eq_round hpos.le hlimit, roundToGrid, hi, zpow_natCast]
  push_cast
  rfl

/-- A machine word as a double is a whole number. -/
theorem exists_int_toFloat (w : UInt64) : ∃ k : ℤ, value w.toFloat = k := by
  rw [(value_toFloat w).2]
  rcases le_total w.toNat (2 ^ 53) with h | h
  · exact ⟨w.toNat, by rw [round_natCast h, Int.cast_natCast]⟩
  · have hsize : 2 ^ 52 ≤ w.toNat := by omega
    exact exists_int_round (by exact_mod_cast hsize) (round_natCast_lt_limit w.toNat_lt)

/-- A machine word as a double is finite and not below zero. -/
theorem isFinite_toFloat (w : UInt64) : w.toFloat.isFinite = true ∧ 0 ≤ value w.toFloat := by
  obtain ⟨hnum, hval⟩ := value_toFloat w
  have h0 : 0 ≤ round (w.toNat : ℚ) := round_nonneg w.toNat.cast_nonneg
  rw [isFinite_iff, hval, abs_of_nonneg h0]
  exact ⟨⟨hnum, round_natCast_lt_limit w.toNat_lt⟩, h0⟩

/-! ## 2. The whole part of a double -/

/-- A mantissa with an exponent, made an integer, is its whole part. -/
theorem roundToInt_eq_floor (m : Nat) (e : ℤ) :
    roundToInt .positive m e = ⌊(m : ℚ) * 2 ^ e⌋ := by
  unfold roundToInt decreaseExponent shiftToExponent
  simp only [sub_zero, zero_sub]
  -- one of the two shifts is by nothing, which one depends on the sign of the exponent
  obtain ⟨k, hk⟩ : ∃ k, k = e.toNat := ⟨_, rfl⟩
  obtain ⟨n, hn⟩ : ∃ n, n = (-(e - (k : ℤ))).toNat := ⟨_, rfl⟩
  rw [← hk, ← hn]
  have hsize : ((m <<< k : Nat) : ℚ) / 2 ^ n = m * 2 ^ e := by
    have he : e = (k : ℤ) - n := by omega
    rw [he, zpow_sub₀ two_ne_zero, zpow_natCast, zpow_natCast, Nat.shiftLeft_eq]
    push_cast
    ring
  have hlocates := (locates_exact (m <<< k)).shiftRight n
  rw [hsize] at hlocates
  show ((ExtendedMantissa.ofMantissaAndAccuracy (m <<< k) .exact >>> n).mantissa : ℤ) = _
  rw [eq_comm, Int.floor_eq_iff]
  exact ⟨by exact_mod_cast hlocates.lower, by exact_mod_cast hlocates.upper⟩

section WholePart

variable {x : Float}

/-- **A double that fits into a machine word is made the count of its whole part.** -/
theorem toNat_toUInt64 (hx : x.isFinite = true) (h0 : 0 ≤ value x) (h : value x < 2 ^ 64) :
    (x.toUInt64.toNat : ℤ) = ⌊value x⌋ := by
  have hint : x.toModel.unpack.toInt 0 (UInt64.size - 1) = ⌊value x⌋ := by
    change x.toModel.unpack.isFinite = true at hx
    unfold value at h0 ⊢
    generalize x.toModel.unpack = u at *
    cases u with
    | notANumber => cases hx
    | infinity s => cases hx
    | zero s => exact Int.floor_zero.symm
    | finite s m e hm =>
      cases s with
      | negative =>
        have hpos := size_pos hm e
        simp only [valueOf, factor] at h0
        linarith
      | positive =>
        have hval : valueOf (.finite .positive m e hm) = m * 2 ^ e := one_mul _
        rw [hval]
        exact roundToInt_eq_floor m e
  have hfloor : 0 ≤ ⌊value x⌋ := Int.floor_nonneg.2 h0
  have hfits : ⌊value x⌋.toNat < UInt64.size := by
    have hlt : ⌊value x⌋ < 2 ^ 64 := Int.floor_lt.2 (by exact_mod_cast h)
    show ⌊value x⌋.toNat < 2 ^ 64
    omega
  have hword : x.toUInt64 = UInt64.ofNatClamp ⌊value x⌋.toNat := by
    rw [← hint]
    rfl
  rw [hword, UInt64.ofNatClamp_eq_ofNat _ hfits, UInt64.toNat_ofNat_of_lt' hfits,
    Int.toNat_of_nonneg hfloor]

/-- A double that is not above zero is made zero, and so is what is no number. -/
theorem toUInt64_of_nonpos (h : value x ≤ 0) : x.toUInt64 = 0 := by
  have hint : (x.toModel.unpack.toInt 0 (UInt64.size - 1)).toNat = 0 := by
    have hlimit := limit_pos
    unfold value at h
    generalize x.toModel.unpack = u at *
    cases u with
    | notANumber => rfl
    | zero s => rfl
    | infinity s =>
      cases s with
      | negative => rfl
      | positive =>
        simp only [valueOf, factor] at h
        linarith
    | finite s m e hm =>
      cases s with
      | negative =>
        have hneg : toInt 0 (UInt64.size - 1) (.finite .negative m e hm) =
            -roundToInt .positive m e := rfl
        have hfloor : 0 ≤ ⌊(m : ℚ) * 2 ^ e⌋ := Int.floor_nonneg.2 (size_pos hm e).le
        rw [hneg, roundToInt_eq_floor]
        omega
      | positive =>
        have hpos := size_pos hm e
        simp only [valueOf, factor] at h
        linarith
  show UInt64.ofNatClamp (x.toModel.unpack.toInt 0 (UInt64.size - 1)).toNat = 0
  rw [hint]
  rfl

/-- **A double below the end of the machine words is made the count of its whole part**, which is
zero below zero. -/
theorem toNat_toUInt64_eq_floor (h : value x < 2 ^ 64) : x.toUInt64.toNat = ⌊value x⌋₊ := by
  rcases le_or_gt (value x) 0 with hneg | hpos
  · rw [toUInt64_of_nonpos hneg, Nat.floor_of_nonpos hneg]
    rfl
  · have hnum : x.isNaN = false := by
      cases hnan : x.isNaN with
      | false => rfl
      | true => exact absurd (value_of_isNaN hnan) hpos.ne'
    have hfinite : x.isFinite = true := by
      rw [isFinite_iff, abs_of_pos hpos]
      exact ⟨hnum, h.trans (two_pow_lt_limit (by norm_num))⟩
    have hfloor := toNat_toUInt64 hfinite hpos.le h
    rw [← Int.natCast_floor_eq_floor hpos.le] at hfloor
    exact_mod_cast hfloor

/-- The whole part of a double is a double. -/
theorem round_floor (hx : x.isFinite = true) (h0 : 0 ≤ value x) :
    round (⌊value x⌋ : ℤ) = (⌊value x⌋ : ℤ) := by
  rcases le_total (2 ^ 52) (value x) with h | h
  · have hlimit : round (value x) < limit := by
      rw [round_value hx]
      exact (abs_lt.1 ((isFinite_iff x).1 hx).2).2
    obtain ⟨k, hk⟩ := exists_int_round h hlimit
    rw [round_value hx] at hk
    rw [hk, Int.floor_intCast, ← hk, round_value hx]
  · obtain ⟨n, hn⟩ := Int.eq_ofNat_of_zero_le (Int.floor_nonneg.2 h0)
    have hle : (n : ℤ) ≤ 2 ^ 52 := by
      rw [← hn]
      exact Int.floor_le_iff.2 (by push_cast; linarith)
    rw [hn, Int.cast_natCast]
    exact round_natCast (by omega)

/-- **The whole part goes back and forth without being rounded.** -/
theorem value_toFloat_toUInt64 (hx : x.isFinite = true) (h0 : 0 ≤ value x)
    (h : value x < 2 ^ 64) : value x.toUInt64.toFloat = (⌊value x⌋ : ℤ) := by
  have hcount : (x.toUInt64.toNat : ℚ) = (⌊value x⌋ : ℤ) := by
    rw [← toNat_toUInt64 hx h0 h, Int.cast_natCast]
  rw [(value_toFloat _).2, hcount, round_floor hx h0]

end WholePart

end FuzzyControl.Double
