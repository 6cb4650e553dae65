import Mathlib

/-!
# The number that a double stands for

Doubles are compared and computed with through an unpacked form: a zero, an infinity, no number at
all, or a mantissa with an exponent. This file fixes the number that each of them stands for and
reads the comparisons of doubles as comparisons of numbers.

* `Reads`: what a sign, an exponent field and a fraction are unpacked to, case by case (`reads`);
* `Canonical`: the bounds on the mantissa and the exponent of an unpacked double
  (`canonical_unpack`), under which unpacked forms are compared like their numbers
  (`compare_valueOf`);
* `value`: the number of a double. An infinity stands where the doubles would go on, at
  `2 ^ 1024`, so that the order is not disturbed (`lt_iff`, `le_iff`, `beq_iff`).
-/

namespace FuzzyControl.Double

open Float.Model (Format UnpackedFloat)
open Float.Model.UnpackedFloat

/-! ## 1. Words -/

/-- The packed form of a double. -/
abbrev Word := BitVec Format.binary64.numBits

/-- What a sign, an exponent field and a fraction are unpacked to. -/
inductive Reads (s : Sign) (field fraction : Nat) : UnpackedFloat → Prop where
  | infinity (hf : field = 2047) (hm : fraction = 0) : Reads s field fraction (.infinity s)
  | notANumber (hf : field = 2047) (hm : 0 < fraction) : Reads s field fraction .notANumber
  | zero (hf : field = 0) (hm : fraction = 0) : Reads s field fraction (.zero s)
  | subnormal (hf : field = 0) (hm : 0 < fraction) :
      Reads s field fraction (.finite s fraction (-1074) hm)
  | normal (hf : 0 < field) (hf' : field < 2047) :
      Reads s field fraction (.finite s (2 ^ 52 + fraction) (field - 1075) (by omega))

theorem toNat_implicit_append (fraction : BitVec 52) :
    (1#1 ++ fraction).toNat = 2 ^ 52 + fraction.toNat := by
  rw [BitVec.toNat_append, ← Nat.shiftLeft_add_eq_or_of_lt fraction.isLt]
  rfl

theorem finite_eq {s : Sign} {m n : Nat} {d e : Int} {hm : 0 < m} {hn : 0 < n} (h : m = n)
    (h' : d = e) : UnpackedFloat.finite s m d hm = .finite s n e hn := by
  subst h h'
  rfl

/-- **A word is unpacked as its three parts read.** -/
theorem reads (b : Word) : Reads (Sign.ofBitVec (unpackSign b)) (unpackExponent b).toNat
    (unpackMantissa b).toNat (unpack Format.binary64 b) := by
  have hlt : (unpackExponent b).toNat < 2048 := (unpackExponent b).isLt
  unfold unpack
  simp only
  split
  · rename_i h
    have hf : (unpackExponent b).toNat = 2047 := by rw [h]; rfl
    split
    · rename_i h0
      exact .infinity hf (by rw [h0]; rfl)
    · rename_i h0
      exact .notANumber hf (Nat.pos_of_ne_zero fun e => h0 (BitVec.eq_of_toNat_eq e))
  · rename_i hmax
    split
    · rename_i h
      have hf : (unpackExponent b).toNat = 0 := by rw [h]; rfl
      split
      · rename_i h0
        exact .zero hf (by rw [h0]; rfl)
      · rename_i h0
        have hm := Nat.pos_of_ne_zero fun e => h0 (BitVec.eq_of_toNat_eq e)
        convert @Reads.subnormal (Sign.ofBitVec (unpackSign b)) _ _ hf hm using 1
        exact finite_eq rfl (by rw [hf]; rfl)
    · rename_i h0
      have hne : (unpackExponent b).toNat ≠ 2047 := fun e => hmax (BitVec.eq_of_toNat_eq e)
      have hf : 0 < (unpackExponent b).toNat :=
        Nat.pos_of_ne_zero fun e => h0 (BitVec.eq_of_toNat_eq e)
      have hf' : (unpackExponent b).toNat < 2047 := by omega
      convert @Reads.normal (Sign.ofBitVec (unpackSign b)) _ (unpackMantissa b).toNat hf hf' using 1
      refine finite_eq (toNat_implicit_append _) ?_
      show ((unpackExponent b).toNat : Int) - (1023 + 52) = _
      omega

theorem unpack_pack_zero (s : Sign) :
    unpack Format.binary64 (pack Format.binary64 (.zero s)) = .zero s := by
  cases s <;> rfl

/-! ## 2. Unpacked doubles as numbers -/

/-- The bounds on an unpacked double: 53 bits of mantissa, of which the first is set down to the
least exponent. -/
def Canonical : UnpackedFloat → Prop
  | .finite _ m e _ => m < 2 ^ 53 ∧ -1074 ≤ e ∧ e ≤ 971 ∧ (2 ^ 52 ≤ m ∨ e = -1074)
  | _ => True

theorem canonical_unpack (b : Word) : Canonical (unpack Format.binary64 b) := by
  have hm : (unpackMantissa b).toNat < 2 ^ 52 := (unpackMantissa b).isLt
  have hb := reads b
  generalize unpack Format.binary64 b = u at hb
  cases hb with
  | infinity => trivial
  | notANumber => trivial
  | zero => trivial
  | subnormal => exact ⟨by omega, by omega, by omega, Or.inr rfl⟩
  | normal => exact ⟨by omega, by omega, by omega, Or.inl (by omega)⟩

/-- Where the doubles would go on if there were larger ones. -/
def limit : ℚ := 2 ^ (1024 : ℤ)

theorem limit_pos : 0 < limit := zpow_pos two_pos _

theorem one_lt_limit : 1 < limit := one_lt_zpow₀ one_lt_two (by norm_num)

/-- The factor of a sign. -/
def factor : Sign → ℚ
  | .negative => -1
  | .positive => 1

/-- The number that an unpacked double stands for. -/
def valueOf : UnpackedFloat → ℚ
  | .infinity s => factor s * limit
  | .notANumber => 0
  | .zero _ => 0
  | .finite s m e _ => factor s * (m * 2 ^ e)

/-- The exponent is compared first: a mantissa has at most twice the size of another one. -/
theorem size_lt_of_exponent_lt {m n : Nat} {d e : ℤ} (hm : m < 2 ^ 53) (hn : 2 ^ 52 ≤ n)
    (h : d < e) : (m : ℚ) * 2 ^ d < n * 2 ^ e := by
  have hm' : (m : ℚ) < 2 ^ 53 := by exact_mod_cast hm
  have hn' : (2 : ℚ) ^ 52 ≤ n := by exact_mod_cast hn
  calc (m : ℚ) * 2 ^ d < 2 ^ 53 * 2 ^ d := by gcongr
    _ = 2 ^ 52 * 2 ^ (d + 1) := by rw [zpow_add_one₀ two_ne_zero]; ring
    _ ≤ 2 ^ 52 * 2 ^ e := by gcongr <;> [norm_num; omega]
    _ ≤ n * 2 ^ e := by gcongr

theorem limit_eq : limit = (2 ^ 52 : Nat) * 2 ^ (972 : ℤ) := by
  rw [limit, show (1024 : ℤ) = (52 : Nat) + 972 by norm_num, zpow_add₀ two_ne_zero, zpow_natCast,
    Nat.cast_pow, Nat.cast_ofNat]

theorem size_lt_limit {m : Nat} {e : ℤ} (hm : m < 2 ^ 53) (he : e ≤ 971) :
    (m : ℚ) * 2 ^ e < limit := by
  rw [limit_eq]
  exact size_lt_of_exponent_lt hm le_rfl (by omega)

theorem size_pos {m : Nat} (hm : 0 < m) (e : ℤ) : (0 : ℚ) < m * 2 ^ e := by positivity

theorem compare_size {m n : Nat} {d e : ℤ} (hm : m < 2 ^ 53) (hn : n < 2 ^ 53)
    (hd : 2 ^ 52 ≤ m ∨ d = -1074) (he : 2 ^ 52 ≤ n ∨ e = -1074) (hd' : -1074 ≤ d)
    (he' : -1074 ≤ e) :
    (compare d e).then (compare m n) = compare ((m : ℚ) * 2 ^ d) (n * 2 ^ e) := by
  rcases lt_trichotomy d e with h | rfl | h
  · have hlt := size_lt_of_exponent_lt hm (he.resolve_right (by omega)) h
    rw [compare_lt_iff_lt.2 h, compare_lt_iff_lt.2 hlt]
    rfl
  · have hpos : (0 : ℚ) < 2 ^ d := by positivity
    rw [compare_eq_iff_eq.2 rfl]
    show compare m n = _
    rcases lt_trichotomy m n with hmn | rfl | hmn
    · rw [compare_lt_iff_lt.2 hmn, compare_lt_iff_lt.2 (by gcongr)]
    · rw [compare_eq_iff_eq.2 rfl, compare_eq_iff_eq.2 rfl]
    · rw [compare_gt_iff_gt.2 hmn, compare_gt_iff_gt.2 (by gcongr)]
  · have hlt := size_lt_of_exponent_lt hn (hd.resolve_right (by omega)) h
    rw [compare_gt_iff_gt.2 h, compare_gt_iff_gt.2 hlt]
    rfl

section Compare

variable {p q : ℚ}

theorem some_lt (h : p < q) : some Ordering.lt = some (compare p q) := by
  rw [compare_lt_iff_lt.2 h]

theorem some_eq (h : p = q) : some Ordering.eq = some (compare p q) := by
  rw [compare_eq_iff_eq.2 h]

theorem some_gt (h : q < p) : some Ordering.gt = some (compare p q) := by
  rw [compare_gt_iff_gt.2 h]

theorem swap_compare (p q : ℚ) : (compare p q).swap = compare (-1 * p) (-1 * q) := by
  rcases lt_trichotomy p q with h | rfl | h
  · rw [compare_lt_iff_lt.2 h, compare_gt_iff_gt.2 (by linarith)]
    rfl
  · rw [compare_eq_iff_eq.2 rfl, compare_eq_iff_eq.2 rfl]
    rfl
  · rw [compare_gt_iff_gt.2 h, compare_lt_iff_lt.2 (by linarith)]
    rfl

end Compare

/-- **Unpacked doubles are compared like their numbers.** -/
theorem compare_valueOf {u v : UnpackedFloat} (hu : Canonical u) (hv : Canonical v)
    (nu : u.isNaN = false) (nv : v.isNaN = false) :
    u.compare v = some (compare (valueOf u) (valueOf v)) := by
  have hlim := limit_pos
  cases u with
  | notANumber => simp [UnpackedFloat.isNaN] at nu
  | infinity s =>
    cases v with
    | notANumber => simp [UnpackedFloat.isNaN] at nv
    | infinity t =>
      cases s <;> cases t <;> simp only [UnpackedFloat.compare, valueOf, factor]
      · exact some_eq rfl
      · exact some_lt (by linarith)
      · exact some_gt (by linarith)
      · exact some_eq rfl
    | zero t =>
      cases s <;> simp only [UnpackedFloat.compare, valueOf, factor]
      · exact some_lt (by linarith)
      · exact some_gt (by linarith)
    | finite t n e hn =>
      have hlt := size_lt_limit hv.1 hv.2.2.1
      have hpos := size_pos hn e
      cases s <;> cases t <;> simp only [UnpackedFloat.compare, valueOf, factor]
      · exact some_lt (by linarith)
      · exact some_lt (by linarith)
      · exact some_gt (by linarith)
      · exact some_gt (by linarith)
  | zero s =>
    cases v with
    | notANumber => simp [UnpackedFloat.isNaN] at nv
    | infinity t =>
      cases t <;> simp only [UnpackedFloat.compare, valueOf, factor]
      · exact some_gt (by linarith)
      · exact some_lt (by linarith)
    | zero t => exact some_eq rfl
    | finite t n e hn =>
      have hpos := size_pos hn e
      cases t <;> simp only [UnpackedFloat.compare, valueOf, factor]
      · exact some_gt (by linarith)
      · exact some_lt (by linarith)
  | finite s m d hm =>
    obtain ⟨h1, h2, h3, h4⟩ := hu
    have hlt := size_lt_limit h1 h3
    have hpos := size_pos hm d
    cases v with
    | notANumber => simp [UnpackedFloat.isNaN] at nv
    | infinity t =>
      cases s <;> cases t <;> simp only [UnpackedFloat.compare, valueOf, factor]
      · exact some_gt (by linarith)
      · exact some_lt (by linarith)
      · exact some_gt (by linarith)
      · exact some_lt (by linarith)
    | zero t =>
      cases s <;> simp only [UnpackedFloat.compare, valueOf, factor]
      · exact some_lt (by linarith)
      · exact some_gt (by linarith)
    | finite t n e hn =>
      obtain ⟨k1, k2, -, k4⟩ := hv
      have hpos' := size_pos hn e
      have hsize := compare_size h1 k1 h4 k4 h2 k2
      cases s <;> cases t <;> simp only [UnpackedFloat.compare, valueOf, factor]
      · rw [hsize, swap_compare]
      · exact some_lt (by linarith)
      · exact some_gt (by linarith)
      · rw [hsize, one_mul, one_mul]

theorem compare_nan_left (v : UnpackedFloat) : UnpackedFloat.notANumber.compare v = none := by
  cases v <;> rfl

theorem compare_nan_right (u : UnpackedFloat) : u.compare .notANumber = none := by
  cases u <;> rfl

theorem eq_notANumber {u : UnpackedFloat} (h : u.isNaN = true) : u = .notANumber := by
  cases u <;> first | rfl | cases h

/-- Without a number on both sides there is no comparison. -/
theorem compare_eq_some_iff {u v : UnpackedFloat} (hu : Canonical u) (hv : Canonical v)
    (o : Ordering) : u.compare v = some o ↔
      u.isNaN = false ∧ v.isNaN = false ∧ compare (valueOf u) (valueOf v) = o := by
  cases nu : u.isNaN with
  | true => simp [eq_notANumber nu, compare_nan_left]
  | false =>
    cases nv : v.isNaN with
    | true => simp [eq_notANumber nv, compare_nan_right]
    | false => simp [compare_valueOf hu hv nu nv]

/-! ## 3. Doubles as numbers -/

/-- The number that a double stands for; zero if it is no number. -/
def value (x : Float) : ℚ := valueOf x.toModel.unpack

theorem canonical (x : Float) : Canonical x.toModel.unpack := canonical_unpack _

theorem lt_iff_compare (x y : Float) :
    x < y ↔ x.toModel.unpack.compare y.toModel.unpack = some .lt := by
  show decide (x.toModel < y.toModel) = true ↔ _
  rw [decide_eq_true_iff]
  exact beq_iff_eq

theorem beq_iff_compare (x y : Float) :
    (x == y) = true ↔ x.toModel.unpack.compare y.toModel.unpack = some .eq := by
  show (x.toModel.unpack.compare y.toModel.unpack == some .eq) = true ↔ _
  exact beq_iff_eq

theorem le_iff_lt_or_beq (x y : Float) : x ≤ y ↔ x < y ∨ (x == y) = true := by
  rw [lt_iff_compare, beq_iff_compare]
  show decide (x.toModel ≤ y.toModel) = true ↔ _
  rw [decide_eq_true_iff]
  show (x.toModel.unpack.compare y.toModel.unpack).any (·.isLE) = true ↔ _
  cases x.toModel.unpack.compare y.toModel.unpack with
  | none => simp
  | some o => cases o <;> simp

theorem lt_iff (x y : Float) : x < y ↔
    x.isNaN = false ∧ y.isNaN = false ∧ value x < value y := by
  rw [lt_iff_compare, compare_eq_some_iff (canonical x) (canonical y), compare_lt_iff_lt]
  rfl

theorem beq_iff (x y : Float) : (x == y) = true ↔
    x.isNaN = false ∧ y.isNaN = false ∧ value x = value y := by
  rw [beq_iff_compare, compare_eq_some_iff (canonical x) (canonical y), compare_eq_iff_eq]
  rfl

theorem le_iff (x y : Float) : x ≤ y ↔
    x.isNaN = false ∧ y.isNaN = false ∧ value x ≤ value y := by
  rw [le_iff_lt_or_beq, lt_iff, beq_iff, le_iff_lt_or_eq]
  tauto

end FuzzyControl.Double
