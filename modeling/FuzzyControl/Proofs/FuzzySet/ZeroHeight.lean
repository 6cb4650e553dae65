import FuzzyControl.Proofs.FuzzySet.Maxima

/-!
# Sets of zero height

The centroid is undefined where the memberships sum up to zero. Rounding takes nothing away from a
sum of memberships, so they do that only if all of them are zero, which is a height of zero. The
other defuzzifiers are defined for every set with samples; so the policy for zero height decides
over nothing but the centroid of sets of zero height.

* `moments_eq`: the weighted sum and the sum of the weights as two sums;
* `Valid.height_beq_zero_iff`, `Valid.total_beq_zero_iff`: height and sum of the memberships are
  zero together;
* `Valid.crispOf?_eq_none_iff`: where a defuzzifier has no answer;
* `midpoint_eq`: the mean of the grid, from its first value;
* `zeroHeight_policy`: what the policy decides.
-/

namespace FuzzyControl

open Double

/-- The weighted sum and the sum of the weights do not meet. -/
theorem Defuzzifier.moments_eq (samples : List (Float × Float)) :
    moments samples =
      (total (samples.map fun p => p.1 * p.2), total (samples.map Prod.snd)) := by
  induction samples using List.reverseRecOn with
  | nil => rfl
  | append_singleton samples p ih =>
    rw [List.map_append, List.map_append, List.map_singleton, List.map_singleton, total_concat,
      total_concat]
    unfold moments at ih ⊢
    rw [List.foldl_concat, ih]

namespace FuzzySet

variable {s : FuzzySet}

/-! ## 1. Where a defuzzifier has no answer -/

theorem moments_zip (s : FuzzySet) : Defuzzifier.moments (s.grid.zip s.memberships) =
    (total (s.samples.map fun p => p.value * p.membership), total s.memberships) := by
  rw [Defuzzifier.moments_eq, zip_grid_memberships, List.map_map, List.map_map]
  rfl

theorem Valid.height_beq_zero_iff (hs : s.Valid) :
    (s.height == 0) = true ↔ ∀ m ∈ s.memberships, (m == 0) = true := by
  constructor
  · intro hzero m hm
    exact beq_of_le_of_le (le_trans (hs.le_height hm) (le_of_beq hzero)) (hs.inUnit m hm).1
  · intro hzero
    rcases s.height_eq_or_mem with h | h
    · exact (beq_iff _ _).2 ⟨hs.inUnit_height.isNaN, rfl, congrArg value h⟩
    · exact hzero _ h

/-- **The memberships sum up to zero iff the height is zero.** -/
theorem Valid.total_beq_zero_iff (hs : s.Valid) :
    (total s.memberships == 0) = true ↔ (s.height == 0) = true :=
  (Double.total_beq_zero_iff fun m hm => (hs.inUnit m hm).1).trans hs.height_beq_zero_iff.symm

theorem Valid.centroid_eq_none_iff (hs : s.Valid) :
    Defuzzifier.crispOf? .centroid s.grid s.memberships = none ↔ (s.height == 0) = true := by
  rw [← hs.total_beq_zero_iff]
  simp only [Defuzzifier.crispOf?, moments_zip]
  split_ifs with h
  · exact iff_of_true rfl h
  · exact iff_of_false not_false h

theorem crispOf?_of_nil (h : s.samples = []) (m : Defuzzifier) :
    m.crispOf? s.grid s.memberships = none := by
  unfold grid memberships
  rw [h]
  cases m <;> rfl

/-- **A defuzzifier has no answer for a set without samples, and the centroid has none at zero
height.** -/
theorem Valid.crispOf?_eq_none_iff (hs : s.Valid) (m : Defuzzifier) :
    m.crispOf? s.grid s.memberships = none ↔
      s.samples = [] ∨ m = .centroid ∧ (s.height == 0) = true := by
  by_cases hne : s.samples = []
  · exact iff_of_true (crispOf?_of_nil hne m) (.inl hne)
  · obtain ⟨hsmallest, hlargest, hmean⟩ := hs.crispOf?_top hne
    have htop := hs.top_ne_nil hne
    cases m with
    | centroid => simp [hs.centroid_eq_none_iff, hne]
    | meanOfMaxima => simp [hmean, hne]
    | smallestOfMaxima => simp [hsmallest, htop, hne]
    | largestOfMaxima => simp [hlargest, htop, hne]

/-! ## 2. What the policy decides -/

theorem crisp_of_eq_none {m : Defuzzifier} (h : m.crispOf? s.grid s.memberships = none)
    (hne : s.samples ≠ []) :
    s.crisp m .zero = 0 ∧ s.crisp m .midpoint = s.midpoint := by
  unfold crisp
  rw [h]
  simp [hne]

theorem crisp_of_nil (h : s.samples = []) (m : Defuzzifier) (policy : ZeroHeight) :
    s.crisp m policy = 0 := by
  unfold crisp
  rw [crispOf?_of_nil h]
  simp [h]

/-- The mean of the grid is summed up from its first value: what the sum starts from adds
nothing. -/
theorem midpoint_eq {x : Float} {xs : List Float} (h : s.grid = x :: xs) :
    s.midpoint = xs.foldl (· + ·) x / Float.ofNat s.grid.length := by
  unfold midpoint
  rw [h, List.foldl_cons, neg_zero_add]

/-- **The policy for zero height decides over sets of zero height and nothing else.** On a valid
set, a defuzzifier has no answer iff the set has no samples, or it is the centroid and the height is
zero. So the policies differ for the centroid of a set with samples and without height only: it is
zero under the one, and the mean of the grid under the other. -/
theorem zeroHeight_policy (s : FuzzySet) (hs : s.Valid) :
    (∀ m : Defuzzifier, m.crispOf? s.grid s.memberships = none ↔
      s.samples = [] ∨ m = .centroid ∧ (s.height == 0) = true) ∧
    (∀ m : Defuzzifier, m ≠ .centroid ∨ 0 < s.height ∨ s.samples = [] →
      s.crisp m .zero = s.crisp m .midpoint) ∧
    (s.samples = [] → ∀ m policy, s.crisp m policy = 0) ∧
    (s.samples ≠ [] → (s.height == 0) = true →
      s.crisp .centroid .zero = 0 ∧ ∀ x xs, s.grid = x :: xs →
        s.crisp .centroid .midpoint = xs.foldl (· + ·) x / Float.ofNat s.grid.length) ∧
    ∀ xs : List Float, (∀ x ∈ xs, 0 ≤ x) → (xs.foldl (· + ·) 0 == 0) = true →
      ∀ x ∈ xs, (x == 0) = true := by
  refine ⟨hs.crispOf?_eq_none_iff, fun m hm => ?_, crisp_of_nil, fun hne hzero => ?_,
    fun xs hxs => (Double.total_beq_zero_iff hxs).1⟩
  · cases h : m.crispOf? s.grid s.memberships with
    | some x => rw [crisp_of_eq_some h, crisp_of_eq_some h]
    | none =>
      -- a set with samples has a height of zero here, and only its centroid is undefined
      obtain hnil | ⟨hcentroid, hzero⟩ := (hs.crispOf?_eq_none_iff m).1 h
      · rw [crisp_of_nil hnil, crisp_of_nil hnil]
      · obtain hother | hheight | hnil := hm
        · exact absurd hcentroid hother
        · exact absurd hheight (not_lt_of_le (le_of_beq hzero))
        · rw [crisp_of_nil hnil, crisp_of_nil hnil]
  · obtain ⟨h0, hmid⟩ := crisp_of_eq_none (hs.centroid_eq_none_iff.2 hzero) hne
    exact ⟨h0, fun x xs hgrid => hmid.trans (midpoint_eq hgrid)⟩

/-- A set that is nowhere above zero, over values whose mean is one. -/
def flat : FuzzySet := ⟨"flat", [⟨-1, 0⟩, ⟨0, -0.0⟩, ⟨4, 0⟩]⟩

theorem zeroHeight_policy_flat : flat.Valid ∧ flat.samples ≠ [] ∧ (flat.height == 0) = true ∧
    flat.crisp .centroid .zero = 0 ∧ flat.crisp .centroid .midpoint = 1 := by
  have hvalid : flat.Valid := by decide
  have hne : flat.samples ≠ [] := by decide
  have hzero : (flat.height == 0) = true := by decide
  obtain ⟨h0, hmid⟩ := (zeroHeight_policy flat hvalid).2.2.2.1 hne hzero
  exact ⟨hvalid, hne, hzero, h0, (hmid (-1) [0, 4] rfl).trans (by decide +kernel)⟩

end FuzzySet

end FuzzyControl
