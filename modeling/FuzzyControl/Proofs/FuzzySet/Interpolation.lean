import FuzzyControl.Proofs.Double.Operations
import FuzzyControl.Proofs.FuzzySet.Lookup

/-!
# The line between two samples in rounded numbers

The line between two samples adds to the first membership a part of the difference to the second
one. On paper it is a part, and the sum is between the memberships. In doubles the product and the
quotient are rounded, and the part can come out larger than the whole: then the sum can leave the
unit interval. This happens at the second sample itself, where the part is the whole, and where a
distance or a product leaves the range of the doubles of full precision.

* `PartOf`: a number that is a part of another one; rounding keeps it (`PartOf.round`);
* `Sample.Steady`: what is added between two samples is a part of the difference;
* `Sample.Clear`: before the second sample, at full precision; there the line is steady;
* `Sample.Around.inUnit_iff_steady`: where the second membership is zero, it has to be;
* `FuzzySet.SteadyAt.inUnit`: where the line is steady, the membership is in the unit interval;
* `FuzzySet.SteadyThroughout`: steady at every sample, and so at every value (`steadyAt`); samples
  that are one apart are (`steadyThroughout_of_unit`);
* `falling_negative`: at a sample, it can be negative.
-/

namespace FuzzyControl

open Double

/-! ## 1. Parts -/

namespace Double

/-- A number between zero and another one, on whichever side of zero. -/
def PartOf (q r : ℚ) : Prop := 0 ≤ q ∧ q ≤ r ∨ r ≤ q ∧ q ≤ 0

theorem PartOf.trans {p q r : ℚ} (h : PartOf p q) (h' : PartOf q r) : PartOf p r := by
  unfold PartOf at *
  rcases h with h | h <;> rcases h' with h' | h'
  · exact .inl ⟨h.1, h.2.trans h'.2⟩
  · exact .inr ⟨by linarith, by linarith⟩
  · exact .inl ⟨by linarith, by linarith⟩
  · exact .inr ⟨h'.1.trans h.1, h.2⟩

/-- **Rounding keeps parts.** -/
theorem PartOf.round {q r : ℚ} (h : PartOf q r) : PartOf (Double.round q) (Double.round r) := by
  rcases h with h | h
  · exact .inl ⟨round_nonneg h.1, round_mono h.2⟩
  · exact .inr ⟨round_mono h.1, round_zero ▸ round_mono h.2⟩

theorem PartOf.div {q r : ℚ} (h : PartOf q r) {c : ℚ} (hc : 0 < c) : PartOf (q / c) (r / c) := by
  rcases h with h | h
  · exact .inl ⟨by have := h.1; positivity, by have := h.2; gcongr⟩
  · refine .inr ⟨by have := h.1; gcongr, div_nonpos_of_nonpos_of_nonneg h.2 hc.le⟩

theorem PartOf.neg {q r : ℚ} (h : PartOf q r) : PartOf (-q) (-r) := by
  rcases h with h | h
  · exact .inr ⟨neg_le_neg h.2, neg_nonpos_of_nonneg h.1⟩
  · exact .inl ⟨neg_nonneg_of_nonpos h.2, neg_le_neg h.1⟩

theorem PartOf.mul_right {c d : ℚ} (hc : 0 ≤ c) (hcd : c ≤ d) (r : ℚ) : PartOf (c * r) (d * r) := by
  rcases le_total 0 r with hr | hr
  · exact .inl ⟨mul_nonneg hc hr, mul_le_mul_of_nonneg_right hcd hr⟩
  · exact .inr ⟨mul_le_mul_of_nonpos_right hcd hr, mul_nonpos_of_nonneg_of_nonpos hc hr⟩

/-- What a product of full precision is rounded up by is made up for by a factor that is smaller by
one part in `2 ^ 53`. -/
theorem part_round_mul {c d r : ℚ} (hc : 0 ≤ c) (hcd : c ≤ (1 - 2 ^ (-53 : ℤ)) * d)
    (h : Double.round (c * r) = 0 ∨ 2 ^ (-1022 : ℤ) ≤ |Double.round (c * r)|) :
    PartOf (Double.round (c * r)) (d * r) := by
  have hpart : (0 : ℚ) < 1 - 2 ^ (-53 : ℤ) := by norm_num
  have hd : 0 ≤ d := nonneg_of_mul_nonneg_right (hc.trans hcd) hpart
  have hpos : ∀ s, 0 ≤ s → (Double.round (c * s) = 0 ∨ 2 ^ (-1022 : ℤ) ≤ |Double.round (c * s)|) →
      PartOf (Double.round (c * s)) (d * s) := by
    intro s hs h
    have hcs : 0 ≤ c * s := mul_nonneg hc hs
    refine .inl ⟨round_nonneg hcs, ?_⟩
    rcases h with h | h
    · rw [h]
      exact mul_nonneg hd hs
    · rw [abs_of_nonneg (round_nonneg hcs), round_of_nonneg hcs] at h
      rw [round_of_nonneg hcs]
      have hgrid : roundToGrid (c * s) ≤ d * s := by
        refine le_of_mul_le_mul_left ?_ hpart
        calc (1 - 2 ^ (-53 : ℤ)) * roundToGrid (c * s) ≤ c * s := by
              refine mul_roundToGrid_le (hcs.lt_of_ne fun hzero => ?_) (h.trans (min_le_left _ _))
              rw [← hzero, roundToGrid_zero, min_eq_left limit_pos.le] at h
              exact absurd h (not_le.2 (by positivity))
          _ ≤ (1 - 2 ^ (-53 : ℤ)) * d * s := mul_le_mul_of_nonneg_right hcd hs
          _ = (1 - 2 ^ (-53 : ℤ)) * (d * s) := mul_assoc _ _ _
      exact (min_le_left _ _).trans hgrid
  rcases le_total 0 r with hr | hr
  · exact hpos r hr h
  · have hneg := hpos (-r) (neg_nonneg_of_nonpos hr)
    rw [mul_neg, round_neg, neg_eq_zero, abs_neg, mul_neg] at hneg
    simpa using (hneg h).neg

/-- A number just above one is rounded to one. -/
theorem round_one_add : round (1 + 2 ^ (-54 : ℤ)) = 1 := by
  have hpos : (0 : ℚ) < 1 + 2 ^ (-54 : ℤ) := by positivity
  have hlog : Int.log 2 (1 + 2 ^ (-54 : ℤ) : ℚ) = 0 := log_eq (by norm_num) (by norm_num)
  have hgrid : gridExponent (1 + 2 ^ (-54 : ℤ)) = -52 := by
    unfold gridExponent
    rw [hlog]
    rfl
  have hnearest : nearestEven ((1 + 2 ^ (-54 : ℤ)) / 2 ^ (-52 : ℤ)) = 2 ^ 52 := by
    have hfloor : ⌊(1 + 2 ^ (-54 : ℤ) : ℚ) / 2 ^ (-52 : ℤ)⌋ = 2 ^ 52 := by
      rw [Int.floor_eq_iff]
      constructor <;> norm_num
    unfold nearestEven
    rw [hfloor, if_pos (by norm_num)]
  have hround : roundToGrid (1 + 2 ^ (-54 : ℤ)) = 1 := by
    unfold roundToGrid
    rw [hgrid, hnearest]
    norm_num
  rw [round_of_nonneg hpos.le, hround, min_eq_left one_lt_limit.le]

/-- What is left to one, and rounded, adds up to no more than one. -/
theorem round_add_le_one {m : ℚ} (h0 : 0 ≤ m) (h1 : m ≤ 1) :
    round (m + round (1 - m)) ≤ 1 := by
  have hup : round (1 - m) ≤ 1 - m + 2 ^ (-54 : ℤ) := by
    rcases h0.eq_or_lt with rfl | h0
    · rw [sub_zero, round_one]
      exact le_add_of_nonneg_right (by positivity)
    · have hlt : |1 - m| < 2 ^ (0 : ℤ) := by
        rw [zpow_zero, abs_lt]
        constructor <;> linarith
      have hround := (abs_le.1 (abs_round_sub_le (by norm_num) (by norm_num) hlt)).2
      exact sub_le_iff_le_add'.1 hround
  calc round (m + round (1 - m)) ≤ round (1 + 2 ^ (-54 : ℤ)) := round_mono (by linarith)
    _ = 1 := round_one_add

/-- **A membership with a part of the difference to another one is a membership.** -/
theorem InUnit.add_part {m n q : Float} (hm : InUnit m) (hn : InUnit n) (hq : q.isNaN = false)
    (h : PartOf (value q) (value (n - m))) : InUnit (m + q) := by
  obtain ⟨-, hm0, hm1⟩ := (inUnit_iff m).1 hm
  obtain ⟨-, hn0, hn1⟩ := (inUnit_iff n).1 hn
  have hmfin := isFinite_of_inUnit hm
  have hdiff := (value_sub (isFinite_of_inUnit hn) hmfin).2
  -- the difference takes a membership neither below zero nor, but for the rounding, above one
  have hlo : -value m ≤ value (n - m) := by
    calc -value m = round (-value m) := by rw [round_neg, round_value hmfin]
      _ ≤ round (value n - value m) := round_mono (by linarith)
      _ = value (n - m) := hdiff.symm
  have hup : value (n - m) ≤ round (1 - value m) := by
    rw [hdiff]
    exact round_mono (by linarith)
  have hup' : round (1 - value m) ≤ 1 := (round_mono (by linarith)).trans round_one.le
  have hup₀ : 0 ≤ round (1 - value m) := round_nonneg (by linarith)
  have hqlo : -value m ≤ value q := by rcases h with h | h <;> linarith
  have hqup : value q ≤ round (1 - value m) := by rcases h with h | h <;> linarith
  have hqfin : q.isFinite = true :=
    isFinite_of_abs_le_one hq (abs_le.2 ⟨by linarith, by linarith⟩)
  obtain ⟨hnum, hsum⟩ := value_add hmfin hqfin
  refine (inUnit_iff _).2 ⟨hnum, ?_, ?_⟩
  · rw [hsum]
    exact round_nonneg (by linarith)
  · calc value (m + q) = round (value m + value q) := hsum
      _ ≤ round (value m + round (1 - value m)) := round_mono (by linarith)
      _ ≤ 1 := round_add_le_one hm0 hm1

/-- The difference of memberships is no larger than one. -/
theorem InUnit.abs_sub_le {m n : Float} (hm : InUnit m) (hn : InUnit n) :
    |value (n - m)| ≤ 1 := by
  obtain ⟨-, hm0, hm1⟩ := (inUnit_iff m).1 hm
  obtain ⟨-, hn0, hn1⟩ := (inUnit_iff n).1 hn
  rw [(value_sub (isFinite_of_inUnit hn) (isFinite_of_inUnit hm)).2, abs_le]
  constructor
  · calc (-1 : ℚ) = round (-1) := by rw [round_neg, round_one]
      _ ≤ round (value n - value m) := round_mono (by linarith)
  · exact (round_mono (by linarith)).trans round_one.le

theorem InUnit.isFinite_sub {m n : Float} (hm : InUnit m) (hn : InUnit n) :
    (n - m).isFinite = true :=
  isFinite_of_abs_le_one (value_sub (isFinite_of_inUnit hn) (isFinite_of_inUnit hm)).1
    (hm.abs_sub_le hn)

end Double

/-! ## 2. The line between two samples -/

namespace Sample

variable {x : Float} {a b : Sample}

/-- What the line between two samples adds to the first membership. -/
def riseAt (x : Float) (a b : Sample) : Float :=
  (x - a.value) * (b.membership - a.membership) / (b.value - a.value)

/-- What the line adds is a part of the difference of the memberships, as doubles. -/
def Steady (x : Float) (a b : Sample) : Prop :=
  0 ≤ riseAt x a b ∧ riseAt x a b ≤ b.membership - a.membership ∨
    b.membership - a.membership ≤ riseAt x a b ∧ riseAt x a b ≤ 0

theorem steady_iff (ha : InUnit a.membership) (hb : InUnit b.membership) :
    Steady x a b ↔ (riseAt x a b).isNaN = false ∧
      PartOf (Double.value (riseAt x a b)) (Double.value (b.membership - a.membership)) := by
  have hnum := (value_sub (isFinite_of_inUnit hb) (isFinite_of_inUnit ha)).1
  have hzero : (0 : Float).isNaN = false := rfl
  unfold Steady PartOf
  simp only [le_iff, hnum, hzero, value_zero, true_and]
  tauto

/-- **A steady line stays in the unit interval.** -/
theorem Steady.inUnit (h : Steady x a b) (ha : InUnit a.membership) (hb : InUnit b.membership) :
    InUnit (lineAt x a b) := by
  obtain ⟨hnum, hpart⟩ := (steady_iff ha hb).1 h
  exact ha.add_part hb hnum hpart

/-- Two samples at a finite distance around a value. -/
structure Around (x : Float) (a b : Sample) : Prop where
  left : a.value ≤ x
  right : x ≤ b.value
  ascending : a.value < b.value
  span : (b.value - a.value).isFinite = true

theorem Around.isFinite (h : Around x a b) : a.value.isFinite = true ∧ x.isFinite = true := by
  obtain ⟨hb, ha⟩ := isFinite_of_sub h.span
  obtain ⟨-, hx, hleft⟩ := (le_iff _ _).1 h.left
  obtain ⟨-, -, hright⟩ := (le_iff _ _).1 h.right
  exact ⟨ha, isFinite_of_le ha hb hx hleft hright⟩

/-- The second sample is between the two. -/
theorem Around.last (hascending : a.value < b.value)
    (hspan : (b.value - a.value).isFinite = true) : Around b.value a b :=
  ⟨le_of_lt hascending, le_refl (isNaN_of_isFinite (isFinite_of_sub hspan).1), hascending, hspan⟩

/-- The distance of the value from the first sample is at most that of the second one. -/
theorem Around.distances (h : Around x a b) : 0 ≤ Double.value (x - a.value) ∧
    Double.value (x - a.value) ≤ Double.value (b.value - a.value) ∧
    0 < Double.value (b.value - a.value) := by
  obtain ⟨ha, hx⟩ := h.isFinite
  have hb := (isFinite_of_sub h.span).1
  have hleft := ((le_iff _ _).1 h.left).2.2
  have hright := ((le_iff _ _).1 h.right).2.2
  refine ⟨?_, ?_, value_sub_pos ha hb ((lt_iff _ _).1 h.ascending).2.2⟩
  · rw [(value_sub hx ha).2]
    exact round_nonneg (by linarith)
  · rw [(value_sub hx ha).2, (value_sub hb ha).2]
    exact round_mono (by linarith)

/-- The product is no larger than the distance of the samples. -/
theorem Around.abs_product_le (h : Around x a b) (ha : InUnit a.membership)
    (hb : InUnit b.membership) :
    |Double.round (Double.value (x - a.value) * Double.value (b.membership - a.membership))| ≤
      Double.value (b.value - a.value) := by
  obtain ⟨h0, hle, -⟩ := h.distances
  have hbound : |Double.value (x - a.value) * Double.value (b.membership - a.membership)| ≤
      Double.value (b.value - a.value) := by
    rw [abs_mul, abs_of_nonneg h0]
    exact (mul_le_of_le_one_right h0 (ha.abs_sub_le hb)).trans hle
  obtain ⟨hlo, hup⟩ := abs_le.1 hbound
  have hlo' := round_mono hlo
  have hup' := round_mono hup
  rw [round_neg, round_value h.span] at hlo'
  rw [round_value h.span] at hup'
  exact abs_le.2 ⟨hlo', hup'⟩

/-- **What the line adds, in numbers**: the product is rounded, and then the quotient. -/
theorem Around.value_riseAt (h : Around x a b) (ha : InUnit a.membership)
    (hb : InUnit b.membership) : (riseAt x a b).isNaN = false ∧
      Double.value (riseAt x a b) =
        Double.round (Double.value ((x - a.value) * (b.membership - a.membership)) /
          Double.value (b.value - a.value)) ∧
      Double.value ((x - a.value) * (b.membership - a.membership)) =
        Double.round (Double.value (x - a.value) * Double.value (b.membership - a.membership)) := by
  obtain ⟨h0, hle, hpos⟩ := h.distances
  have hdistance : (x - a.value).isFinite = true :=
    isFinite_of_le (x := 0) rfl h.span (value_sub h.isFinite.2 h.isFinite.1).1 h0 hle
  have hspan := (isFinite_iff _).1 h.span
  have hdiff := ha.isFinite_sub hb
  obtain ⟨hnum, hproduct⟩ := value_mul hdistance hdiff
  have hfinite : ((x - a.value) * (b.membership - a.membership)).isFinite = true := by
    refine (isFinite_iff _).2 ⟨hnum, ?_⟩
    rw [hproduct]
    exact (h.abs_product_le ha hb).trans_lt ((le_abs_self _).trans_lt hspan.2)
  obtain ⟨hnum', hquotient⟩ := value_div hfinite h.span hpos.ne'
  exact ⟨hnum', hquotient, hproduct⟩

/-- What the line adds is no larger than one. -/
theorem Around.abs_riseAt_le (h : Around x a b) (ha : InUnit a.membership)
    (hb : InUnit b.membership) : |Double.value (riseAt x a b)| ≤ 1 := by
  obtain ⟨-, hrise, hproduct⟩ := h.value_riseAt ha hb
  have hpos := h.distances.2.2
  have hquotient : |Double.value ((x - a.value) * (b.membership - a.membership)) /
      Double.value (b.value - a.value)| ≤ 1 := by
    rw [abs_div, abs_of_pos hpos, div_le_one hpos, hproduct]
    exact h.abs_product_le ha hb
  rw [hrise, ← round_abs, ← round_one]
  exact round_mono hquotient

/-- **The line, in numbers**: what it adds to the first membership, and the sum rounded. -/
theorem Around.value_lineAt (h : Around x a b) (ha : InUnit a.membership)
    (hb : InUnit b.membership) : (lineAt x a b).isNaN = false ∧ Double.value (lineAt x a b) =
      Double.round (Double.value a.membership + Double.value (riseAt x a b)) :=
  value_add (isFinite_of_inUnit ha)
    (isFinite_of_abs_le_one (h.value_riseAt ha hb).1 (h.abs_riseAt_le ha hb))

/-- Between two samples, and before the second one also in rounded distances, where the product has
full precision or is zero. -/
structure Clear (x : Float) (a b : Sample) : Prop extends Around x a b where
  inside : x - a.value < b.value - a.value
  full : ((x - a.value) * (b.membership - a.membership) == 0) = true ∨
    leastNormal ≤ ((x - a.value) * (b.membership - a.membership)).abs

instance (x : Float) (a b : Sample) : Decidable (Steady x a b) := inferInstanceAs (Decidable (_ ∨ _))

instance (x : Float) (a b : Sample) : Decidable (Around x a b) :=
  decidable_of_iff (a.value ≤ x ∧ x ≤ b.value ∧ a.value < b.value ∧
      (b.value - a.value).isFinite = true)
    ⟨fun ⟨h₁, h₂, h₃, h₄⟩ => ⟨h₁, h₂, h₃, h₄⟩, fun ⟨h₁, h₂, h₃, h₄⟩ => ⟨h₁, h₂, h₃, h₄⟩⟩

instance (x : Float) (a b : Sample) : Decidable (Clear x a b) :=
  decidable_of_iff (Around x a b ∧ x - a.value < b.value - a.value ∧
      (((x - a.value) * (b.membership - a.membership) == 0) = true ∨
        leastNormal ≤ ((x - a.value) * (b.membership - a.membership)).abs))
    ⟨fun ⟨h₁, h₂, h₃⟩ => ⟨h₁, h₂, h₃⟩, fun ⟨h₁, h₂, h₃⟩ => ⟨h₁, h₂, h₃⟩⟩

/-- **Before the second sample the line is steady**: by what the distance is less than the whole, the
roundings of the product and the quotient are made up for. -/
theorem Clear.steady (h : Clear x a b) (ha : InUnit a.membership) (hb : InUnit b.membership) :
    Steady x a b := by
  obtain ⟨h0, -, hpos⟩ := h.distances
  obtain ⟨hnum, hrise, hproduct⟩ := h.value_riseAt ha hb
  have hfull : Double.value ((x - a.value) * (b.membership - a.membership)) = 0 ∨
      2 ^ (-1022 : ℤ) ≤ |Double.value ((x - a.value) * (b.membership - a.membership))| := by
    rw [← value_leastNormal, ← value_abs, ← value_zero]
    exact h.full.imp (fun h0 => ((beq_iff _ _).1 h0).2.2) fun hle => ((le_iff _ _).1 hle).2.2
  rw [hproduct] at hfull hrise
  have hpart := (part_round_mul h0 (value_le_of_lt h.span h.inside h0) hfull).div hpos
  rw [mul_div_cancel_left₀ _ hpos.ne'] at hpart
  have hround := hpart.round
  rw [round_value (ha.isFinite_sub hb), ← hrise] at hround
  exact (steady_iff ha hb).2 ⟨hnum, hround⟩

/-- **A line that is steady at the second sample is steady before it.** -/
theorem Around.steady (h : Around x a b) (ha : InUnit a.membership) (hb : InUnit b.membership)
    (hlast : Steady b.value a b) : Steady x a b := by
  obtain ⟨h0, hle, hpos⟩ := h.distances
  obtain ⟨hnum, hrise, hproduct⟩ := h.value_riseAt ha hb
  obtain ⟨-, hrise', hproduct'⟩ := (last h.ascending h.span).value_riseAt ha hb
  refine (steady_iff ha hb).2 ⟨hnum, PartOf.trans ?_ ((steady_iff ha hb).1 hlast).2⟩
  rw [hrise, hrise', hproduct, hproduct']
  exact ((PartOf.mul_right h0 hle _).round.div hpos).round

/-- Where samples are one apart, the line is steady: it is not divided. -/
theorem Around.steady_of_unit (h : Around x a b) (ha : InUnit a.membership)
    (hb : InUnit b.membership) (hunit : (b.value - a.value == 1) = true) : Steady x a b := by
  obtain ⟨h0, hle, -⟩ := h.distances
  obtain ⟨hnum, hrise, hproduct⟩ := h.value_riseAt ha hb
  have hone : Double.value (b.value - a.value) = 1 := by
    rw [((beq_iff _ _).1 hunit).2.2, value_one]
  rw [hone] at hle hrise
  have hpart := PartOf.mul_right h0 hle (Double.value (b.membership - a.membership))
  rw [one_mul] at hpart
  refine (steady_iff ha hb).2 ⟨hnum, ?_⟩
  rw [hrise, hproduct, div_one]
  have hround := round_value (ha.isFinite_sub hb)
  have htwice := hpart.round.round
  rwa [hround, hround] at htwice

/-- **Where a membership falls to zero, the line stays in the unit interval only if it is steady**: a
larger part than the whole takes it below zero. -/
theorem Around.inUnit_iff_steady (h : Around x a b) (ha : InUnit a.membership)
    (hb : InUnit b.membership) (hzero : (b.membership == 0) = true) :
    InUnit (lineAt x a b) ↔ Steady x a b := by
  refine ⟨fun hline => ?_, fun hsteady => hsteady.inUnit ha hb⟩
  obtain ⟨h0, -, hpos⟩ := h.distances
  obtain ⟨hnum, hrise, hproduct⟩ := h.value_riseAt ha hb
  obtain ⟨-, ha0, -⟩ := (inUnit_iff _).1 ha
  have hafin := isFinite_of_inUnit ha
  have hdiff : Double.value (b.membership - a.membership) = -Double.value a.membership := by
    rw [(value_sub (isFinite_of_inUnit hb) hafin).2, ((beq_iff _ _).1 hzero).2.2, value_zero,
      zero_sub, round_neg, round_value hafin]
  -- the rise is not above zero
  have hfall : Double.value (riseAt x a b) ≤ 0 := by
    have hproduct₀ : Double.value ((x - a.value) * (b.membership - a.membership)) ≤ 0 := by
      rw [hproduct, hdiff, mul_neg, round_neg]
      exact neg_nonpos_of_nonneg (round_nonneg (mul_nonneg h0 ha0))
    rw [hrise, ← round_zero]
    exact round_mono (div_nonpos_of_nonpos_of_nonneg hproduct₀ hpos.le)
  have hfinite := isFinite_of_abs_le_one hnum (h.abs_riseAt_le ha hb)
  have hsum : 0 ≤ Double.value (lineAt x a b) := ((inUnit_iff _).1 hline).2.1
  rw [(h.value_lineAt ha hb).2] at hsum
  have hnonneg := add_nonneg_of_round hafin hfinite hsum
  exact (steady_iff ha hb).2 ⟨hnum, .inr ⟨by linarith, hfall⟩⟩

end Sample

/-! ## 3. Sets -/

/-- The line between two neighbours, where the value is between them. -/
theorem inUnit_between? {x m : Float} {samples : List Sample}
    (hgrades : ∀ p ∈ samples, InUnit p.membership)
    (hsteady : samples.IsChain fun a b => a.value ≤ x → x ≤ b.value → Sample.Steady x a b)
    (h : between? x samples = some m) : InUnit m := by
  fun_induction between? x samples with
  | case1 a b rest hbetween =>
    obtain rfl := Option.some.inj h
    have hab := (List.isChain_cons_cons.1 hsteady).1 hbetween.1 hbetween.2
    exact hab.inUnit (hgrades a (by simp)) (hgrades b (by simp))
  | case2 a b rest hbetween ih =>
    exact ih (fun p hp => hgrades p (List.mem_cons_of_mem _ hp))
      (List.isChain_cons_cons.1 hsteady).2 h
  | case3 samples hshort => cases h

namespace FuzzySet

/-- The line through the samples is steady at a value. -/
def SteadyAt (s : FuzzySet) (x : Float) : Prop :=
  s.samples.IsChain fun a b => a.value ≤ x → x ≤ b.value → Sample.Steady x a b

instance (s : FuzzySet) (x : Float) : Decidable (s.SteadyAt x) :=
  inferInstanceAs (Decidable (List.IsChain _ _))

/-- **Where the line is steady, the membership is in the unit interval.** -/
theorem SteadyAt.inUnit {s : FuzzySet} {x m : Float} (h : s.SteadyAt x) (hs : s.Valid)
    (hm : s.membershipAt x .interpolate = .ok m) : InUnit m := by
  have hgrades := hs.inUnit_samples
  have hline : interpolate? x s.samples = some m := membershipAt_eq_ok_iff.1 hm
  unfold interpolate? at hline
  split at hline
  · rename_i first last hfirst hlast
    split_ifs at hline
    · obtain rfl := Option.some.inj hline
      exact hgrades first (List.mem_of_mem_head? hfirst)
    · obtain rfl := Option.some.inj hline
      exact hgrades last (List.mem_of_mem_getLast? hlast)
    · exact inUnit_between? hgrades h hline
  · cases hline

/-- Neighbours around a value are clear of it. -/
def ClearAt (s : FuzzySet) (x : Float) : Prop :=
  s.samples.IsChain fun a b => a.value ≤ x → x ≤ b.value → Sample.Clear x a b

instance (s : FuzzySet) (x : Float) : Decidable (s.ClearAt x) :=
  inferInstanceAs (Decidable (List.IsChain _ _))

/-- Neighbours in a valid set are memberships at ascending values. -/
theorem Valid.isChain_imp {s : FuzzySet} (hs : s.Valid) {R S : Sample → Sample → Prop}
    (himp : ∀ a b, InUnit a.membership → InUnit b.membership → a.value < b.value → R a b → S a b)
    (h : s.samples.IsChain R) : s.samples.IsChain S := by
  have hascending := List.pairwise_iff_getElem.1 (List.pairwise_map.1 hs.ascends.ascending)
  have hgrades := hs.inUnit_samples
  refine List.isChain_iff_getElem.2 fun i hi => ?_
  exact himp _ _ (hgrades _ (List.getElem_mem _)) (hgrades _ (List.getElem_mem _))
    (hascending i (i + 1) _ _ (Nat.lt_succ_self i)) (List.isChain_iff_getElem.1 h i hi)

theorem ClearAt.steadyAt {s : FuzzySet} {x : Float} (h : s.ClearAt x) (hs : s.Valid) :
    s.SteadyAt x :=
  hs.isChain_imp (fun _ _ ha hb _ hab hleft hright => (hab hleft hright).steady ha hb) h

/-- Two thirds of the way down is clear of the sample at the bottom, and that sample is not. -/
example : let down : FuzzySet := ⟨"Down", [⟨0, 0.1⟩, ⟨3, 0⟩]⟩
    down.ClearAt 2 ∧ ¬ down.ClearAt 3 := by decide +kernel

/-- Neighbours are at finite distances, and the line between them is steady at the second one. -/
def SteadyThroughout (s : FuzzySet) : Prop :=
  s.samples.IsChain fun a b => (b.value - a.value).isFinite = true ∧ Sample.Steady b.value a b

instance (s : FuzzySet) : Decidable s.SteadyThroughout :=
  inferInstanceAs (Decidable (List.IsChain _ _))

/-- **One look at each sample tells whether the line is steady everywhere.** -/
theorem SteadyThroughout.steadyAt {s : FuzzySet} (h : s.SteadyThroughout) (hs : s.Valid)
    (x : Float) : s.SteadyAt x := by
  refine hs.isChain_imp (fun a b ha hb hascending hab hleft hright => ?_) h
  have haround : Sample.Around x a b := ⟨hleft, hright, hascending, hab.1⟩
  exact haround.steady ha hb hab.2

/-- Samples that are one apart are steady throughout. -/
theorem steadyThroughout_of_unit {s : FuzzySet} (hs : s.Valid)
    (h : s.samples.IsChain fun a b => (b.value - a.value == 1) = true) : s.SteadyThroughout := by
  refine hs.isChain_imp (fun a b ha hb hascending hunit => ?_) h
  have hnumber := (beq_iff _ _).1 hunit
  have hspan : (b.value - a.value).isFinite = true :=
    isFinite_of_abs_le_one hnumber.1 (by rw [hnumber.2.2, value_one, abs_one])
  exact ⟨hspan, (Sample.Around.last hascending hspan).steady_of_unit ha hb hunit⟩

/-- A set that falls from the first sample to the second. -/
def falling : FuzzySet := ⟨"Falling", [⟨0, 0.1⟩, ⟨3, 0⟩, ⟨4, 0⟩]⟩

/-- **At the second sample of a valid set, the interpolated membership is below zero.** -/
theorem falling_negative : falling.Valid ∧
    ∃ m, falling.membershipAt 3 .interpolate = .ok m ∧ m < 0 :=
  ⟨by decide, _, rfl, by decide +kernel⟩

end FuzzySet

end FuzzyControl
