import FuzzyControl.Proofs.Double.Rounding
import FuzzyControl.Proofs.Double.Order

/-!
# The numbers that operations on doubles round

An operation on doubles computes an integer mantissa and an exponent, shifts the mantissa down to
the grid of its size while two bits keep what is lost, and packs the result. This file finds the
rounding of a number in that.

* `Locates`: what a mantissa and its two residual bits say about a number; it is kept by shifts;
* `roundWithAccuracy_locates`: the number that a mantissa with an exponent locates is rounded to
  its grid;
* `valueOf_pack`: what is beyond the end of the doubles is packed as an infinity;
* `value_sub`: the difference of finite doubles is the rounded difference of their numbers;
* `isNaN_sub`, `isNaN_abs`: the distance of a number from a finite one is a number.
-/

namespace FuzzyControl.Double

open Float.Model (Format UnpackedFloat totalExponent)
open Float.Model.UnpackedFloat hiding round normalize

/-! ## 1. Residual bits -/

/-- The mantissa is the integer part of `q`; the first residual bit says whether the rest is at
least a half, and the second whether there is more to it than that. -/
structure Locates (em : ExtendedMantissa) (q : ℚ) : Prop where
  lower : (em.mantissa : ℚ) ≤ q
  upper : q < em.mantissa + 1
  half : em.roundBit = true ↔ (em.mantissa : ℚ) + 1 / 2 ≤ q
  rest : em.stickyBit = true ↔ q ≠ em.mantissa ∧ q ≠ em.mantissa + 1 / 2

theorem locates_exact (m : Nat) :
    Locates (ExtendedMantissa.ofMantissaAndAccuracy m .exact) m where
  lower := le_rfl
  upper := lt_add_one _
  half := by simp [ExtendedMantissa.ofMantissaAndAccuracy]
  rest := by simp [ExtendedMantissa.ofMantissaAndAccuracy]

/-- Some residual bit is set iff the mantissa is not all of the number. -/
theorem Locates.either {em : ExtendedMantissa} {q : ℚ} (h : Locates em q) :
    (em.roundBit || em.stickyBit) = true ↔ q ≠ em.mantissa := by
  rw [Bool.or_eq_true, h.half, h.rest]
  constructor
  · rintro (hhalf | ⟨hne, -⟩)
    · intro e
      linarith
    · exact hne
  · intro hne
    by_cases he : q = em.mantissa + 1 / 2
    · exact Or.inl he.ge
    · exact Or.inr ⟨hne, he⟩

/-- A shift moves the last bit of the mantissa into the first residual bit, and both residual bits
into the second one. -/
theorem Locates.shiftRightOne {em : ExtendedMantissa} {q : ℚ} (h : Locates em q) :
    Locates em.shiftRightOne (q / 2) := by
  have heither := h.either
  have hlo := h.lower
  have hup := h.upper
  have hm : (em.mantissa : ℚ) = 2 * (em.mantissa / 2 : Nat) + (em.mantissa % 2 : Nat) := by
    exact_mod_cast (Nat.div_add_mod em.mantissa 2).symm
  have hbit := Nat.mod_two_eq_zero_or_one em.mantissa
  have hbit' : ((em.mantissa % 2 : Nat) : ℚ) ≤ 1 := by
    have : em.mantissa % 2 ≤ 1 := by omega
    exact_mod_cast this
  have hbit₀ : (0 : ℚ) ≤ (em.mantissa % 2 : Nat) := Nat.cast_nonneg _
  refine ⟨?_, ?_, ?_, ?_⟩
  · show ((em.mantissa / 2 : Nat) : ℚ) ≤ q / 2
    linarith
  · show q / 2 < ((em.mantissa / 2 : Nat) : ℚ) + 1
    linarith
  · show (em.mantissa % 2 != 0) = true ↔ ((em.mantissa / 2 : Nat) : ℚ) + 1 / 2 ≤ q / 2
    rcases hbit with hb | hb <;> rw [hb] at hm ⊢ <;> push_cast at hm
    · simp only [bne_self_eq_false, Bool.false_eq_true, false_iff, not_le]
      linarith
    · simp only [bne_iff_ne, ne_eq, one_ne_zero, not_false_eq_true, true_iff]
      linarith
  · show (em.roundBit || em.stickyBit) = true ↔
      q / 2 ≠ (em.mantissa / 2 : Nat) ∧ q / 2 ≠ (em.mantissa / 2 : Nat) + 1 / 2
    rw [heither]
    -- of the two points that the rest is compared with, the shifted bit says which one is `em`
    rcases hbit with hb | hb <;> rw [hb] at hm <;> push_cast at hm
    · refine ⟨fun hne => ⟨fun e => hne (by linarith), fun e => by linarith⟩, fun hne e => hne.1 ?_⟩
      linarith
    · refine ⟨fun hne => ⟨fun e => by linarith, fun e => hne (by linarith)⟩, fun hne e => hne.2 ?_⟩
      linarith

theorem Locates.shiftRight {em : ExtendedMantissa} {q : ℚ} (h : Locates em q) (n : Nat) :
    Locates (em >>> n) (q / 2 ^ n) := by
  show Locates (n.repeat ExtendedMantissa.shiftRightOne em) _
  induction n with
  | zero => simpa [Nat.repeat] using h
  | succ n ih =>
    rw [pow_succ, ← div_div]
    exact ih.shiftRightOne

/-- **The rounded mantissa is the nearest integer.** -/
theorem Locates.roundedMantissa {em : ExtendedMantissa} {q : ℚ} (h : Locates em q) :
    (em.roundedMantissa : ℤ) = nearestEven q := by
  obtain ⟨hlo, hup, hhalf, hrest⟩ := h
  have hfloor : ⌊q⌋ = (em.mantissa : ℤ) := by
    rw [Int.floor_eq_iff]
    exact ⟨by exact_mod_cast hlo, by exact_mod_cast hup⟩
  obtain ⟨m, r, s⟩ := em
  simp only at hlo hup hhalf hrest hfloor
  unfold nearestEven
  rw [hfloor, Int.cast_natCast]
  cases r <;> cases s <;> simp only [Bool.false_eq_true, false_iff, true_iff, not_and, not_le,
    not_not] at hhalf hrest
  · have he : q = m := by
      by_contra hne
      linarith [hrest hne]
    rw [if_pos (by linarith)]
    rfl
  · rw [if_pos hhalf]
    rfl
  · have he : q = m + 1 / 2 := hrest (by linarith)
    rw [if_neg (by linarith), if_pos he]
    rfl
  · rw [if_neg (by linarith), if_neg hrest.2]
    rfl

/-! ## 2. Rounding a mantissa with an exponent -/

/-- The logarithm of a number is that of its integer part. -/
theorem log_of_floor {m : Nat} (hm : 0 < m) {e : ℤ} {q : ℚ} (hlo : (m : ℚ) * 2 ^ e ≤ q)
    (hup : q < (m + 1 : Nat) * 2 ^ e) : Int.log 2 q = m.log2 + e := by
  have hlog : (2 : ℚ) ^ m.log2 ≤ m := by exact_mod_cast Nat.log2_self_le hm.ne'
  have hlog' : ((m + 1 : Nat) : ℚ) ≤ 2 ^ (m.log2 + 1) := by exact_mod_cast Nat.lt_log2_self
  apply log_eq
  · calc (2 : ℚ) ^ ((m.log2 : ℤ) + e) = 2 ^ m.log2 * 2 ^ e := by
          rw [zpow_add₀ two_ne_zero, zpow_natCast]
      _ ≤ m * 2 ^ e := by gcongr
      _ ≤ q := hlo
  · calc q < (m + 1 : Nat) * 2 ^ e := hup
      _ ≤ 2 ^ (m.log2 + 1) * 2 ^ e := by gcongr
      _ = 2 ^ ((m.log2 : ℤ) + e + 1) := by
        rw [← zpow_natCast, ← zpow_add₀ two_ne_zero]
        congr 1
        push_cast
        ring

theorem log_size {m : Nat} (hm : 0 < m) (e : ℤ) :
    Int.log 2 ((m : ℚ) * 2 ^ e) = m.log2 + e :=
  log_of_floor hm le_rfl (by gcongr; exact_mod_cast Nat.lt_succ_self m)

/-- The exponent that a mantissa is shifted to is the one of its grid. -/
theorem targetExponent_eq {m : Nat} (hm : 0 < m) (e : ℤ) :
    Format.binary64.targetExponent (totalExponent m e) = gridExponent (m * 2 ^ e) := by
  unfold gridExponent
  rw [log_size hm]
  show max ((m.log2 : ℤ) + 1 + e - 53) (-1074) = _
  congr 1
  ring

/-- A mantissa that locates a number is shifted to the grid of that number. -/
theorem targetExponent_of_floor {m : Nat} {e : ℤ} {q : ℚ} (hq : 0 < q) (hlo : (m : ℚ) ≤ q / 2 ^ e)
    (hup : q / 2 ^ e < m + 1) (he : e ≤ gridExponent q) :
    Format.binary64.targetExponent (totalExponent m e) = gridExponent q := by
  have htwo : (0 : ℚ) < 2 ^ e := by positivity
  rw [le_div_iff₀ htwo] at hlo
  rw [div_lt_iff₀ htwo] at hup
  show max ((m.log2 : ℤ) + 1 + e - 53) (-1074) = gridExponent q
  unfold gridExponent at he ⊢
  rcases Nat.eq_zero_or_pos m with rfl | hm
  · -- the number is below one step, which only happens on the least grid
    have hlog : Int.log 2 q < e := by
      rw [← Int.lt_zpow_iff_log_lt one_lt_two hq]
      simpa using hup
    rw [Nat.log2_zero]
    omega
  · rw [log_of_floor hm hlo (by exact_mod_cast hup)]
    omega

/-- The bounds on a rounded form: those of a double, but for the largest exponent. -/
def Rounded : UnpackedFloat → Prop
  | .zero _ => True
  | .finite _ m e _ => m < 2 ^ 53 ∧ -1074 ≤ e ∧ (2 ^ 52 ≤ m ∨ e = -1074)
  | _ => False

/-- The form of a mantissa that has been rounded on the grid of exponent `e`: it may have reached
the next grid, whose step is twice as large. -/
def settled (s : Sign) (m : Nat) (e : ℤ) : UnpackedFloat :=
  if h : m = 0 then .zero s
  else if m < 2 ^ 53 then .finite s m e (Nat.pos_of_ne_zero h)
  else .finite s (2 ^ 52) (e + 1) (by decide)

theorem shiftToTarget_of_lt {m : Nat} {e : ℤ} (hm : m < 2 ^ 53) (he : -1074 ≤ e) :
    shiftToTargetExponent Format.binary64 m e .exact = (⟨m, false, false⟩, e) := by
  have hlog : m.log2 ≤ 52 := by
    rcases Nat.eq_zero_or_pos m with rfl | hpos
    · simp
    · have := (Nat.log2_lt hpos.ne').2 hm
      omega
  have ht : Format.binary64.targetExponent (totalExponent m e) ≤ e := by
    show max ((m.log2 : ℤ) + 1 + e - 53) (-1074) ≤ e
    omega
  unfold shiftToTargetExponent shiftToExponent
  simp only [Int.toNat_of_nonpos (Int.sub_nonpos_of_le ht)]
  simp only [Nat.cast_zero, add_zero]
  rfl

theorem shiftToTarget_two_pow {e : ℤ} (he : -1074 ≤ e) :
    shiftToTargetExponent Format.binary64 (2 ^ 53) e .exact = (⟨2 ^ 52, false, false⟩, e + 1) := by
  have ht : Format.binary64.targetExponent (totalExponent (2 ^ 53) e) = e + 1 := by
    show max (((2 ^ 53 : Nat).log2 : ℤ) + 1 + e - 53) (-1074) = e + 1
    rw [Nat.log2_two_pow]
    omega
  unfold shiftToTargetExponent
  rw [ht]
  unfold shiftToExponent
  simp only [show (e + 1 - e).toNat = 1 by omega]
  rfl

theorem roundWithAccuracy_eq_settled {s : Sign} {m : Nat} {e : ℤ} {acc : Accuracy}
    {em : ExtendedMantissa} {t : ℤ}
    (h : shiftToTargetExponent Format.binary64 m e acc = (em, t))
    (hle : em.roundedMantissa ≤ 2 ^ 53) (ht : -1074 ≤ t) :
    roundWithAccuracy Format.binary64 s m e acc = settled s em.roundedMantissa t := by
  unfold roundWithAccuracy settled
  rw [h]
  simp only
  rcases hle.lt_or_eq with hlt | heq
  · simp only [shiftToTarget_of_lt hlt ht, if_pos hlt]
  · simp only [heq, shiftToTarget_two_pow ht]
    rfl

theorem valueOf_settled (s : Sign) {m : Nat} {e : ℤ} (hm : m ≤ 2 ^ 53) :
    valueOf (settled s m e) = factor s * (m * 2 ^ e) := by
  unfold settled
  split_ifs with h0 hlt
  · simp [valueOf, h0]
  · rfl
  · have he : m = 2 ^ 53 := by omega
    show factor s * (((2 ^ 52 : Nat) : ℚ) * 2 ^ (e + 1)) = _
    rw [he, zpow_add_one₀ two_ne_zero]
    push_cast
    ring

theorem rounded_settled (s : Sign) {m : Nat} {e : ℤ} (he : -1074 ≤ e)
    (h : 2 ^ 52 ≤ m ∨ e = -1074) : Rounded (settled s m e) := by
  unfold settled
  split_ifs with h0 hlt
  · trivial
  · exact ⟨hlt, he, h⟩
  · exact ⟨by decide, by omega, Or.inl le_rfl⟩

/-- **A number that is located by a mantissa with an exponent is rounded to the grid of its
size.** -/
theorem roundWithAccuracy_locates (s : Sign) {m : Nat} {e : ℤ} {acc : Accuracy} {q : ℚ} (hq : 0 < q)
    (h : Locates (ExtendedMantissa.ofMantissaAndAccuracy m acc) (q / 2 ^ e))
    (he : e ≤ gridExponent q) :
    Rounded (roundWithAccuracy Format.binary64 s m e acc) ∧
      valueOf (roundWithAccuracy Format.binary64 s m e acc) = factor s * roundToGrid q := by
  have ht : -1074 ≤ gridExponent q := le_max_right _ _
  have hmin := fun h => le_nearestEven_grid hq h
  have hmax := nearestEven_grid_le q
  have hmantissa : (ExtendedMantissa.ofMantissaAndAccuracy m acc).mantissa = m := by
    cases acc with
    | exact => rfl
    | inexact o => cases o <;> rfl
  have htarget := targetExponent_of_floor hq (hmantissa ▸ h.lower) (hmantissa ▸ h.upper) he
  unfold roundToGrid
  generalize gridExponent q = g at *
  have hshift : shiftToTargetExponent Format.binary64 m e acc =
      (ExtendedMantissa.ofMantissaAndAccuracy m acc >>> (g - e).toNat, g) := by
    unfold shiftToTargetExponent
    rw [htarget]
    unfold shiftToExponent
    simp only
    rw [Int.toNat_of_nonneg (Int.sub_nonneg_of_le he), add_sub_cancel]
  have hquot : q / 2 ^ e / 2 ^ (g - e).toNat = q / 2 ^ g := by
    rw [← zpow_natCast, Int.toNat_of_nonneg (Int.sub_nonneg_of_le he), zpow_sub₀ two_ne_zero]
    field_simp
  have hround := (h.shiftRight (g - e).toNat).roundedMantissa
  rw [hquot] at hround
  rw [← hround] at hmin hmax ⊢
  generalize (ExtendedMantissa.ofMantissaAndAccuracy m acc >>> (g - e).toNat) = em at *
  have hle : em.roundedMantissa ≤ 2 ^ 53 := by exact_mod_cast hmax
  have hge : 2 ^ 52 ≤ em.roundedMantissa ∨ g = -1074 := by
    by_cases h : g = -1074
    · exact Or.inr h
    · exact Or.inl (by exact_mod_cast hmin h)
  rw [roundWithAccuracy_eq_settled hshift hle ht, Int.cast_natCast]
  exact ⟨rounded_settled s ht hge, valueOf_settled s hle⟩

/-- A mantissa with an exponent is rounded to the grid of its size. -/
theorem roundWithAccuracy_exact (s : Sign) {m : Nat} {e : ℤ} (hm : 0 < m)
    (he : e ≤ gridExponent (m * 2 ^ e)) :
    Rounded (roundWithAccuracy Format.binary64 s m e .exact) ∧
      valueOf (roundWithAccuracy Format.binary64 s m e .exact) =
        factor s * roundToGrid (m * 2 ^ e) := by
  refine roundWithAccuracy_locates s (size_pos hm e) ?_ he
  rw [mul_div_cancel_right₀ _ (by positivity)]
  exact locates_exact m

/-- The same where the exponent is lowered first, down to the grid. -/
theorem round_size (s : Sign) {m : Nat} (hm : 0 < m) (e : ℤ) :
    Rounded (UnpackedFloat.round Format.binary64 s m e) ∧
      valueOf (UnpackedFloat.round Format.binary64 s m e) =
        factor s * roundToGrid (m * 2 ^ e) := by
  unfold UnpackedFloat.round decreaseExponent
  rw [targetExponent_eq hm e]
  simp only
  generalize hk : (e - gridExponent ((m : ℚ) * 2 ^ e)).toNat = k
  have hm' : 0 < m <<< k := by
    rw [Nat.shiftLeft_eq]
    positivity
  have hsize : ((m <<< k : Nat) : ℚ) * 2 ^ (e - k) = m * 2 ^ e := by
    rw [Nat.shiftLeft_eq, zpow_sub₀ two_ne_zero, zpow_natCast]
    push_cast
    field_simp
  have h := roundWithAccuracy_exact s hm' (e := e - k) (by rw [hsize]; omega)
  rwa [hsize] at h

/-! ## 3. Packing -/

theorem unpackSign_packComponents (s : Sign) (e : BitVec Format.binary64.exponentBits)
    (m : BitVec Format.binary64.mantissaBitsWithoutImplicit) :
    Sign.ofBitVec (unpackSign (packComponents Format.binary64 s e m)) = s := by
  have hsign : unpackSign (packComponents Format.binary64 s e m) = s.toBitVec := by
    apply BitVec.eq_of_toNat_eq
    have he : e.toNat < 2 ^ 11 := e.isLt
    have hm : m.toNat < 2 ^ 52 := m.isLt
    have hs : s.toBitVec.toNat < 2 := s.toBitVec.isLt
    show ((s.toBitVec ++ e ++ m).toNat >>> 63) % 2 = _
    rw [BitVec.toNat_append, BitVec.toNat_append, ← Nat.shiftLeft_add_eq_or_of_lt m.isLt,
      ← Nat.shiftLeft_add_eq_or_of_lt e.isLt, Nat.shiftRight_eq_div_pow]
    show (((s.toBitVec.toNat <<< 11 + _) <<< 52) + _) / _ % 2 = _
    simp only [Nat.shiftLeft_eq]
    omega
  rw [hsign]
  cases s <;> rfl

/-- A packed word reads as the parts that it is packed from. -/
theorem reads_packComponents (s : Sign) (e : BitVec Format.binary64.exponentBits)
    (m : BitVec Format.binary64.mantissaBitsWithoutImplicit) :
    Reads s e.toNat m.toNat (unpack Format.binary64 (packComponents Format.binary64 s e m)) := by
  have h := reads (packComponents Format.binary64 s e m)
  rwa [unpackSign_packComponents, unpackExponent_packComponents,
    unpackMantissa_packComponents] at h

theorem pack_finite (s : Sign) (m : Nat) (e : ℤ) (hm : 0 < m) :
    pack Format.binary64 (.finite s m e hm) =
      if 2048 ≤ (e + 1023 + 52).toNat + 1 then packedInfinity Format.binary64 s
      else if m.log2 + 1 = 53 then
        packComponents Format.binary64 s (BitVec.ofNat 11 (e + 1023 + 52).toNat) (BitVec.ofNat 52 m)
      else packComponents Format.binary64 s 0#11 (BitVec.ofNat 52 m) := rfl

/-- A rounded form is kept by packing up to the largest exponent of a double. -/
theorem unpack_pack_of_le {s : Sign} {m : Nat} {e : ℤ} {hm : 0 < m}
    (h : Rounded (.finite s m e hm)) (he : e ≤ 971) :
    unpack Format.binary64 (pack Format.binary64 (.finite s m e hm)) = .finite s m e hm := by
  obtain ⟨h1, h2, h3⟩ := h
  have hb : (e + 1023 + 52).toNat < 2047 := by omega
  rw [pack_finite, if_neg (by omega)]
  split_ifs with hlog
  · have hm52 : 2 ^ 52 ≤ m := (Nat.le_log2 hm.ne').1 (by omega)
    have hread : Reads s ((e + 1023 + 52).toNat % 2 ^ 11) (m % 2 ^ 52) _ :=
      reads_packComponents s (BitVec.ofNat 11 (e + 1023 + 52).toNat) (BitVec.ofNat 52 m)
    have hfield : (e + 1023 + 52).toNat < 2 ^ 11 := by omega
    have hfrac : m % 2 ^ 52 = m - 2 ^ 52 := by omega
    have hsum : 2 ^ 52 + (m - 2 ^ 52) = m := by omega
    rw [Nat.mod_eq_of_lt hfield, hfrac] at hread
    generalize unpack Format.binary64 _ = u at hread
    cases hread with
    | normal => exact finite_eq hsum (by omega)
    | _ => omega
  · have hm52 : m < 2 ^ 52 := by
      by_contra hge
      have := (Nat.le_log2 hm.ne').2 (not_lt.1 hge)
      have := (Nat.log2_lt hm.ne').2 h1
      omega
    have hread : Reads s 0 (m % 2 ^ 52) _ := reads_packComponents s 0#11 (BitVec.ofNat 52 m)
    rw [Nat.mod_eq_of_lt hm52] at hread
    generalize unpack Format.binary64 _ = u at hread
    cases hread with
    | subnormal => exact finite_eq rfl (h3.resolve_left (by omega)).symm
    | _ => omega

/-- Beyond it, the packed word is an infinity. -/
theorem unpack_pack_of_lt {s : Sign} {m : Nat} {e : ℤ} {hm : 0 < m} (he : 971 < e) :
    unpack Format.binary64 (pack Format.binary64 (.finite s m e hm)) = .infinity s := by
  rw [pack_finite, if_pos (by omega)]
  cases s <;> rfl

/-- **A rounded form is packed as its number**, which ends at `limit`. -/
theorem valueOf_pack {u : UnpackedFloat} {s : Sign} {q : ℚ} (h : Rounded u) (hq : 0 ≤ q)
    (hu : valueOf u = factor s * q) :
    (unpack Format.binary64 (pack Format.binary64 u)).isNaN = false ∧
      valueOf (unpack Format.binary64 (pack Format.binary64 u)) = factor s * min q limit := by
  have hlim := limit_pos
  cases u with
  | zero t =>
    have hq0 : q = 0 := by
      cases s <;> simp only [valueOf, factor] at hu <;> linarith
    rw [unpack_pack_zero, hq0, min_eq_left hlim.le, mul_zero]
    exact ⟨rfl, rfl⟩
  | finite t m e hm =>
    have hpos := size_pos hm e
    obtain ⟨rfl, rfl⟩ : t = s ∧ q = m * 2 ^ e := by
      cases s <;> cases t <;> simp only [valueOf, factor] at hu <;>
        first | exact ⟨rfl, by linarith⟩ | (exfalso; linarith)
    by_cases he : e ≤ 971
    · rw [unpack_pack_of_le h he, min_eq_left (size_lt_limit h.1 he).le]
      exact ⟨rfl, rfl⟩
    · have hge : limit ≤ m * 2 ^ e := by
        rw [limit_eq]
        have hm52 : (2 ^ 52 : Nat) ≤ m := h.2.2.resolve_right (by omega)
        exact mul_le_mul (Nat.cast_le.2 hm52) (zpow_le_zpow_right₀ one_le_two (by omega))
          (by positivity) (Nat.cast_nonneg _)
      rw [unpack_pack_of_lt (by omega), min_eq_right hge]
      exact ⟨rfl, rfl⟩
  | infinity t => exact h.elim
  | notANumber => exact h.elim

/-! ## 4. Differences -/

/-- The number of a finite double is on its grid. -/
theorem round_valueOf {u : UnpackedFloat} (h : Canonical u) (hu : u.isFinite = true) :
    round (valueOf u) = valueOf u := by
  have hlim := limit_pos
  cases u with
  | notANumber => cases hu
  | infinity s => cases hu
  | zero s =>
    have h0 : nearestEven 0 = 0 := nearestEven_natCast 0
    show round 0 = 0
    rw [round, if_neg (lt_irrefl _), roundToGrid, zero_div, h0, Int.cast_zero, zero_mul,
      min_eq_left hlim.le]
  | finite s m e hm =>
    obtain ⟨h1, h2, h3, -⟩ := h
    have hpos := size_pos hm e
    have hg : gridExponent (m * 2 ^ e) ≤ e := by
      have := (Nat.log2_lt hm.ne').2 h1
      rw [gridExponent, log_size hm]
      omega
    obtain ⟨k, hk⟩ := Int.eq_ofNat_of_zero_le (Int.sub_nonneg_of_le hg)
    have hgrid : roundToGrid (m * 2 ^ e) = m * 2 ^ e := by
      have hquot : (m : ℚ) * 2 ^ e / 2 ^ gridExponent (m * 2 ^ e) = (m * 2 ^ k : Nat) := by
        rw [mul_div_assoc, ← zpow_sub₀ two_ne_zero, hk]
        push_cast
        rfl
      rw [roundToGrid, hquot, nearestEven_natCast, Int.cast_natCast, ← hquot]
      field_simp
    have hle := (size_lt_limit h1 h3).le
    cases s <;> simp only [valueOf, factor]
    · rw [round, if_pos (by linarith), neg_one_mul, neg_neg, hgrid, min_eq_left hle]
    · rw [round, if_neg (by linarith), one_mul, hgrid, min_eq_left hle]

/-- A signed mantissa with an exponent is rounded as its number. -/
theorem valueOf_normalize (n e : ℤ) :
    (unpack Format.binary64 (pack Format.binary64
        (UnpackedFloat.normalize Format.binary64 n e .positive))).isNaN = false ∧
      valueOf (unpack Format.binary64 (pack Format.binary64
        (UnpackedFloat.normalize Format.binary64 n e .positive))) = round (n * 2 ^ e) := by
  have htwo : (0 : ℚ) < 2 ^ e := by positivity
  unfold UnpackedFloat.normalize
  rcases lt_trichotomy n 0 with h | rfl | h
  · have hn : ((-n).toNat : ℚ) = -n := by
      have h' : ((-n).toNat : ℤ) = -n := Int.toNat_of_nonneg (by omega)
      exact_mod_cast h'
    have hneg : (n : ℚ) * 2 ^ e < 0 := mul_neg_of_neg_of_pos (by exact_mod_cast h) htwo
    obtain ⟨hr, hv⟩ := round_size .negative (m := (-n).toNat) (by omega) e
    rw [hn, neg_mul] at hv
    rw [compare_lt_iff_lt.2 h, round, if_pos hneg, ← neg_one_mul (min _ _)]
    exact valueOf_pack hr (roundToGrid_nonneg (by linarith)) hv
  · rw [compare_eq_iff_eq.2 rfl]
    simp only
    rw [unpack_pack_zero, Int.cast_zero, zero_mul]
    exact ⟨rfl, (round_valueOf (u := .zero .positive) trivial rfl).symm⟩
  · have hn : (n.toNat : ℚ) = n := by
      have h' : (n.toNat : ℤ) = n := Int.toNat_of_nonneg h.le
      exact_mod_cast h'
    have hpos : 0 < (n : ℚ) * 2 ^ e := mul_pos (by exact_mod_cast h) htwo
    obtain ⟨hr, hv⟩ := round_size .positive (m := n.toNat) (by omega) e
    rw [hn] at hv
    rw [compare_gt_iff_gt.2 h, round, if_neg (by linarith), ← one_mul (min _ _)]
    exact valueOf_pack hr (roundToGrid_nonneg hpos.le) hv

/-- The integers that are subtracted are on the smaller of the two grids. -/
theorem apply_shift (s : Sign) (m : Nat) {e d : ℤ} (h : d ≤ e) :
    ((s.apply ((m <<< (e - d).toNat : Nat) : ℤ) : ℤ) : ℚ) * 2 ^ d = factor s * (m * 2 ^ e) := by
  have hsize : ((m <<< (e - d).toNat : Nat) : ℚ) * 2 ^ d = m * 2 ^ e := by
    rw [Nat.shiftLeft_eq, Nat.cast_mul, Nat.cast_pow, Nat.cast_ofNat, mul_assoc, ← zpow_natCast,
      Int.toNat_of_nonneg (Int.sub_nonneg_of_le h), ← zpow_add₀ two_ne_zero, sub_add_cancel]
  rw [← hsize]
  cases s
  · show ((-((m <<< (e - d).toNat : Nat) : ℤ) : ℤ) : ℚ) * 2 ^ d = -1 * _
    rw [Int.cast_neg, Int.cast_natCast]
    ring
  · show (((m <<< (e - d).toNat : Nat) : ℤ) : ℚ) * 2 ^ d = 1 * _
    rw [Int.cast_natCast, one_mul]

theorem factor_neg (s : Sign) : factor (-s) = -factor s := by
  cases s
  · exact (neg_neg 1).symm
  · rfl

/-- **The difference of finite forms is packed as the rounded difference of their numbers.** -/
theorem valueOf_sub {u v : UnpackedFloat} (hu : Canonical u) (hv : Canonical v)
    (fu : u.isFinite = true) (fv : v.isFinite = true) :
    (unpack Format.binary64 (pack Format.binary64
        (UnpackedFloat.sub Format.binary64 u v))).isNaN = false ∧
      valueOf (unpack Format.binary64 (pack Format.binary64
        (UnpackedFloat.sub Format.binary64 u v))) = round (valueOf u - valueOf v) := by
  cases u with
  | notANumber => cases fu
  | infinity s => cases fu
  | zero s =>
    cases v with
    | notANumber => cases fv
    | infinity t => cases fv
    | zero t =>
      have hsub : ∃ r, UnpackedFloat.sub Format.binary64 (.zero s) (.zero t) = .zero r := by
        cases s <;> cases t <;> exact ⟨_, rfl⟩
      obtain ⟨r, hr⟩ := hsub
      have h0 := round_valueOf (u := .zero r) trivial rfl
      rw [hr, unpack_pack_zero]
      refine ⟨rfl, h0.symm.trans ?_⟩
      show round 0 = round (0 - 0)
      rw [sub_zero]
    | finite t n e hn =>
      have hval : valueOf (.zero s) - valueOf (.finite t n e hn) = valueOf (.finite (-t) n e hn) := by
        simp only [valueOf, factor_neg]
        ring
      have hsub : UnpackedFloat.sub Format.binary64 (.zero s) (.finite t n e hn) =
        .finite (-t) n e hn := rfl
      rw [hval, round_valueOf (u := .finite (-t) n e hn) hv rfl, hsub,
        unpack_pack_of_le ⟨hv.1, hv.2.1, hv.2.2.2⟩ hv.2.2.1]
      exact ⟨rfl, rfl⟩
  | finite s m d hm =>
    cases v with
    | notANumber => cases fv
    | infinity t => cases fv
    | zero t =>
      have hval : valueOf (.finite s m d hm) - valueOf (.zero t) = valueOf (.finite s m d hm) :=
        sub_zero _
      have hsub : UnpackedFloat.sub Format.binary64 (.finite s m d hm) (.zero t) =
        .finite s m d hm := rfl
      rw [hval, round_valueOf hu rfl, hsub, unpack_pack_of_le ⟨hu.1, hu.2.1, hu.2.2.2⟩ hu.2.2.1]
      exact ⟨rfl, rfl⟩
    | finite t n e hn =>
      have h := valueOf_normalize (s.apply ((m <<< (d - min d e).toNat : Nat) : ℤ) -
        t.apply ((n <<< (e - min d e).toNat : Nat) : ℤ)) (min d e)
      rwa [Int.cast_sub, sub_mul, apply_shift s m (min_le_left d e),
        apply_shift t n (min_le_right d e)] at h

/-- The difference of finite doubles is the rounded difference of their numbers. -/
theorem value_sub {x y : Float} (hx : x.isFinite = true) (hy : y.isFinite = true) :
    (x - y).isNaN = false ∧ value (x - y) = round (value x - value y) :=
  valueOf_sub (canonical x) (canonical y) hx hy

theorem isFinite_of_inUnit {m : Float} (h : InUnit m) : m.isFinite = true := by
  obtain ⟨hn, h0, h1⟩ := (inUnit_iff m).1 h
  have hlim := one_lt_limit
  show m.toModel.unpack.isFinite = true
  change m.toModel.unpack.isNaN = false at hn
  change 0 ≤ valueOf m.toModel.unpack at h0
  change valueOf m.toModel.unpack ≤ 1 at h1
  generalize m.toModel.unpack = u at *
  cases u with
  | notANumber => cases hn
  | infinity s => cases s <;> simp only [valueOf, factor] at h0 h1 <;> exfalso <;> linarith
  | zero s => rfl
  | finite s m e hm => rfl

/-- What a membership leaves to one is rounded. -/
theorem InUnit.value_one_sub {m : Float} (h : InUnit m) :
    value (1 - m) = round (1 - value m) := by
  rw [(value_sub (x := 1) rfl (isFinite_of_inUnit h)).2, value_one]

/-- **A membership subtracted from one is a membership.** -/
theorem InUnit.one_sub {m : Float} (h : InUnit m) : InUnit (1 - m) := by
  obtain ⟨-, h0, h1⟩ := (inUnit_iff m).1 h
  have hn := (value_sub (x := 1) rfl (isFinite_of_inUnit h)).1
  have hv := h.value_one_sub
  have hone : round 1 = 1 := by
    have h := round_valueOf (canonical 1) rfl
    rwa [show valueOf (1 : Float).toModel.unpack = 1 from value_one] at h
  have hzero : round 0 = 0 := round_valueOf (u := .zero .positive) trivial rfl
  refine (inUnit_iff _).2 ⟨hn, ?_, ?_⟩
  · calc (0 : ℚ) = round 0 := hzero.symm
      _ ≤ round (1 - value m) := round_mono (by linarith)
      _ = value (1 - m) := hv.symm
  · calc value (1 - m) = round (1 - value m) := hv
      _ ≤ round 1 := round_mono (by linarith)
      _ = 1 := hone

/-! ## 5. Distances -/

theorem isNaN_of_isFinite {x : Float} (h : x.isFinite = true) : x.isNaN = false := by
  change x.toModel.unpack.isFinite = true at h
  show x.toModel.unpack.isNaN = false
  cases hu : x.toModel.unpack with
  | notANumber =>
    rw [hu] at h
    cases h
  | _ => rfl

theorem unpack_pack_infinity (s : Sign) :
    unpack Format.binary64 (pack Format.binary64 (.infinity s)) = .infinity s := by
  cases s <;> rfl

/-- What is left of a number, when a finite one is taken from it, is a number. -/
theorem isNaN_sub {x y : Float} (hx : x.isNaN = false) (hy : y.isFinite = true) :
    (x - y).isNaN = false := by
  by_cases hfin : x.isFinite = true
  · exact (value_sub hfin hy).1
  · -- only an infinity is left, and nothing finite changes it
    show (unpack Format.binary64 (pack Format.binary64
      (UnpackedFloat.sub Format.binary64 x.toModel.unpack y.toModel.unpack))).isNaN = false
    change x.toModel.unpack.isNaN = false at hx
    change ¬ x.toModel.unpack.isFinite = true at hfin
    change y.toModel.unpack.isFinite = true at hy
    generalize x.toModel.unpack = u at *
    generalize y.toModel.unpack = v at *
    cases u with
    | notANumber => cases hx
    | zero s => exact absurd rfl hfin
    | finite s m e hm => exact absurd rfl hfin
    | infinity s =>
      have hsub : UnpackedFloat.sub Format.binary64 (.infinity s) v = .infinity s := by
        cases v with
        | notANumber => cases hy
        | infinity t => cases hy
        | zero t => rfl
        | finite t n e hn => rfl
      rw [hsub, unpack_pack_infinity]
      rfl

/-- From what is no number nothing is left, nor when it is taken from another one. -/
theorem isNaN_sub_of_isNaN {x y : Float} (h : x.isNaN = true ∨ y.isNaN = true) :
    (x - y).isNaN = true := by
  show (unpack Format.binary64 (pack Format.binary64
    (UnpackedFloat.sub Format.binary64 x.toModel.unpack y.toModel.unpack))).isNaN = true
  have hsub : UnpackedFloat.sub Format.binary64 x.toModel.unpack y.toModel.unpack =
      .notANumber := by
    rcases h with hx | hy
    · rw [eq_notANumber hx]
      rfl
    · rw [eq_notANumber hy]
      cases x.toModel.unpack <;> rfl
  rw [hsub]
  rfl

theorem unpack_abs (x : Float) : x.abs.toModel.unpack = x.toModel.unpack.abs := by
  show unpack Format.binary64 (pack Format.binary64 x.toModel.unpack.abs) = x.toModel.unpack.abs
  have hcanonical := canonical x
  generalize x.toModel.unpack = u at *
  cases u with
  | notANumber => rfl
  | infinity s => exact unpack_pack_infinity .positive
  | zero s => exact unpack_pack_zero .positive
  | finite s m e hm =>
    obtain ⟨h1, h2, h3, h4⟩ := hcanonical
    exact unpack_pack_of_le ⟨h1, h2, h4⟩ h3

theorem isNaN_abs (x : Float) : x.abs.isNaN = x.isNaN := by
  show x.abs.toModel.unpack.isNaN = x.toModel.unpack.isNaN
  rw [unpack_abs]
  cases x.toModel.unpack <;> rfl

/-- The absolute value of a double is that of its number. -/
theorem value_abs (x : Float) : value x.abs = |value x| := by
  have hlim := limit_pos
  unfold value
  rw [unpack_abs]
  cases x.toModel.unpack with
  | notANumber => exact abs_zero.symm
  | zero s => exact abs_zero.symm
  | infinity s => cases s <;> simp [UnpackedFloat.abs, valueOf, factor, abs_of_pos hlim]
  | finite s m e hm => cases s <;> simp [UnpackedFloat.abs, valueOf, factor]

end FuzzyControl.Double
