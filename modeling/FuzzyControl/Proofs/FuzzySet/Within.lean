import FuzzyControl.Proofs.FuzzySet.ZeroHeight
import FuzzyControl.Proofs.Double.Errors

/-!
# Crisp values and the grid

On numbers, each defuzzifier would stay between the first and the last value. On doubles the
smallest and the largest of maxima do, being values themselves, and the mean of maxima does unless
its sum is infinite. The centroid need not: its weighted sum, its sum of weights and their quotient
are rounded apart from each other, so already one sample at three of membership one tenth gives more
than three. It stays where the two sums are exact, and elsewhere it is off by little.

* `Within`: between the first and the last value of the grid;
* `Valid.within_mean_iff`: when the mean of maxima is there;
* `Valid.mul_exactMass_le`, `Valid.exactWeighted_le`: the weighted mean on numbers;
* `ExactMoments`, `slack`: when the centroid is within, and how far it can be off;
* `crisp_within`, `lone_beyond`: all methods together, and a centroid that is not within.
-/

namespace FuzzyControl.FuzzySet

open Double

variable {s : FuzzySet}

/-! ## 1. Values of the grid and means of them -/

/-- Between the first and the last value of the grid. -/
structure Within (s : FuzzySet) (x : Float) : Prop where
  first_le : ∀ a, s.grid.head? = some a → a ≤ x
  le_last : ∀ b, s.grid.getLast? = some b → x ≤ b

theorem Valid.within_of_mem (hs : s.Valid) {x : Float} (hx : x ∈ s.grid) : s.Within x where
  first_le _ ha :=
    head_le_of_mem hs.ascends.ascending ha (hs.isNaN_grid _ (List.mem_of_head? ha)) hx
  le_last _ hb :=
    le_last_of_mem hs.ascends.ascending hb (hs.isNaN_grid _ (List.mem_of_getLast? hb)) hx

theorem Within.of_between {x y z : Float} (hx : s.Within x) (hz : s.Within z) (hxy : x ≤ y)
    (hyz : y ≤ z) : s.Within y where
  first_le a ha := le_trans (hx.first_le a ha) hxy
  le_last b hb := le_trans hyz (hz.le_last b hb)

/-- Between finite values there are finite doubles. -/
theorem Within.isFinite {x : Float} (hx : s.Within x) (hfin : ∀ y ∈ s.grid, y.isFinite = true)
    (hne : s.samples ≠ []) : x.isFinite = true := by
  have hgrid : s.grid ≠ [] := by simpa [grid] using hne
  obtain ⟨-, hnum, hlow⟩ := (le_iff _ _).1 (hx.first_le _ (List.head?_eq_some_head hgrid))
  obtain ⟨-, -, hup⟩ := (le_iff _ _).1 (hx.le_last _ (List.getLast?_eq_some_getLast hgrid))
  exact isFinite_of_le (hfin _ (List.head_mem hgrid)) (hfin _ (List.getLast_mem hgrid)) hnum hlow
    hup

/-- **The mean of maxima is within the grid iff the sum of the maxima is finite.** -/
theorem Valid.within_mean_iff (hs : s.Valid) (hfin : ∀ x ∈ s.grid, x.isFinite = true)
    (hne : s.samples ≠ []) (hlen : s.top.length ≤ 2 ^ 52) (policy : ZeroHeight) :
    s.Within (s.crisp .meanOfMaxima policy) ↔ (total s.top).isFinite = true := by
  have htop := hs.top_ne_nil hne
  have hsub : s.top ⊆ s.grid := alphaCut_sublist_grid.subset
  have hmean : s.crisp .meanOfMaxima policy = total s.top / Float.ofNat s.top.length :=
    crisp_of_eq_some (hs.crispOf?_top hne).2.2 policy
  rw [hmean]
  constructor
  · intro h
    by_contra hinf
    have hcount := (ofNat_pos (List.length_pos_iff.2 htop) (by omega)).1
    have hbeyond := isFinite_div (Bool.eq_false_iff.2 hinf) hcount
    rw [h.isFinite hfin hne] at hbeyond
    cases hbeyond
  · intro h
    obtain ⟨hlow, hup⟩ := mean_between hs.ascending_top hlen h (List.head?_eq_some_head htop)
      (List.getLast?_eq_some_getLast htop)
    exact (hs.within_of_mem (hsub (List.head_mem htop))).of_between
      (hs.within_of_mem (hsub (List.getLast_mem htop))) hlow hup

/-! ## 2. The centroid in numbers -/

/-- The sum of the values, weighted by their memberships. -/
def weighted (s : FuzzySet) : Float := total (s.samples.map fun p => p.value * p.membership)

/-- The sum of the memberships. -/
def mass (s : FuzzySet) : Float := total s.memberships

/-- The exact weighted sum of the samples. -/
def exactWeighted (s : FuzzySet) : ℚ :=
  (s.samples.map fun p => value p.value * value p.membership).sum

/-- The exact sum of the memberships. -/
def exactMass (s : FuzzySet) : ℚ := (s.samples.map fun p => value p.membership).sum

section Centroid

variable {first last : Float}

theorem Valid.membership_nonneg (hs : s.Valid) : ∀ p ∈ s.samples, 0 ≤ value p.membership :=
  fun p hp => ((inUnit_iff _).1 (hs.inUnit_samples p hp)).2.1

theorem Valid.value_first_le (hs : s.Valid) (hfirst : s.grid.head? = some first) :
    ∀ p ∈ s.samples, value first ≤ value p.value := fun _ hp =>
  ((le_iff _ _).1 ((hs.within_of_mem (List.mem_map_of_mem hp)).first_le _ hfirst)).2.2

theorem Valid.value_le_last (hs : s.Valid) (hlast : s.grid.getLast? = some last) :
    ∀ p ∈ s.samples, value p.value ≤ value last := fun _ hp =>
  ((le_iff _ _).1 ((hs.within_of_mem (List.mem_map_of_mem hp)).le_last _ hlast)).2.2

/-- **The exact weighted mean is not below the first value.** -/
theorem Valid.mul_exactMass_le (hs : s.Valid) (hfirst : s.grid.head? = some first) :
    value first * s.exactMass ≤ s.exactWeighted := by
  rw [exactMass, ← List.sum_map_mul_left]
  refine List.sum_le_sum fun p hp => ?_
  exact mul_le_mul_of_nonneg_right (hs.value_first_le hfirst p hp) (hs.membership_nonneg p hp)

/-- **The exact weighted mean is not above the last value.** -/
theorem Valid.exactWeighted_le (hs : s.Valid) (hlast : s.grid.getLast? = some last) :
    s.exactWeighted ≤ value last * s.exactMass := by
  rw [exactMass, ← List.sum_map_mul_left]
  refine List.sum_le_sum fun p hp => ?_
  exact mul_le_mul_of_nonneg_right (hs.value_le_last hlast p hp) (hs.membership_nonneg p hp)

/-- The height is not above the sum of the memberships. -/
theorem Valid.height_le_mass (hs : s.Valid) : s.height ≤ s.mass := by
  obtain ⟨hmass, hle⟩ := mem_le_total fun m hm => (hs.inUnit m hm).1
  rcases s.height_eq_or_mem with h | h
  · rw [h]
    exact hmass
  · exact hle _ h

theorem Valid.isFinite_mass (hs : s.Valid) : s.mass.isFinite = true :=
  (value_total_le hs.inUnit).1

theorem Valid.value_mass_pos (hs : s.Valid) (hheight : 0 < s.height) : 0 < value s.mass :=
  ((lt_iff _ _).1 (lt_of_lt_of_le hheight hs.height_le_mass)).2.2

/-- At positive height, the centroid is a quotient. -/
theorem Valid.crisp_centroid (hs : s.Valid) (hheight : 0 < s.height) (policy : ZeroHeight) :
    s.crisp .centroid policy = s.weighted / s.mass := by
  have hmass : ¬ (total s.memberships == 0) = true := fun h =>
    (hs.value_mass_pos hheight).ne' ((beq_iff _ _).1 h).2.2
  refine crisp_of_eq_some ?_ policy
  simp only [Defuzzifier.crispOf?, moments_zip]
  rw [if_neg hmass]
  rfl

/-- Neither sum of the centroid is rounded. -/
structure ExactMoments (s : FuzzySet) : Prop where
  finite : s.weighted.isFinite = true
  weighted : value s.weighted = s.exactWeighted
  mass : value s.mass = s.exactMass

/-- **A centroid of exact sums is within the grid.** -/
theorem ExactMoments.within_centroid (h : s.ExactMoments) (hs : s.Valid)
    (hfin : ∀ x ∈ s.grid, x.isFinite = true) (hheight : 0 < s.height) (policy : ZeroHeight) :
    s.Within (s.crisp .centroid policy) := by
  have hpos := hs.value_mass_pos hheight
  obtain ⟨hnum, hval⟩ := value_div h.finite hs.isFinite_mass hpos.ne'
  rw [h.weighted, h.mass] at hval
  rw [h.mass] at hpos
  rw [hs.crisp_centroid hheight]
  constructor
  · intro a ha
    have hafin := hfin a (List.mem_of_head? ha)
    refine (le_iff _ _).2 ⟨((isFinite_iff a).1 hafin).1, hnum, ?_⟩
    rw [hval, ← round_value hafin]
    exact round_mono ((le_div_iff₀ hpos).2 (hs.mul_exactMass_le ha))
  · intro b hb
    have hbfin := hfin b (List.mem_of_getLast? hb)
    refine (le_iff _ _).2 ⟨hnum, ((isFinite_iff b).1 hbfin).1, ?_⟩
    rw [hval, ← round_value hbfin]
    exact round_mono ((div_le_iff₀ hpos).2 (hs.exactWeighted_le hb))

/-! ## 3. How far the centroid can be off -/

/-- How far beyond the ends `first` and `last` of its grid the centroid of a set can be: for each
sample, one part in `2 ^ 49` of the largest size of a value, and twice the least double per
height. -/
def slack (s : FuzzySet) (first last : Float) : ℚ :=
  s.samples.length * (2 ^ (-49 : ℤ) * max |value first| |value last| +
    2 ^ (-1073 : ℤ) / value s.height)

/-- The values of the grid are at most as large as the larger end. -/
theorem Valid.abs_value_le (hs : s.Valid) (hfirst : s.grid.head? = some first)
    (hlast : s.grid.getLast? = some last) {p : Sample} (hp : p ∈ s.samples) :
    |value p.value| ≤ max |value first| |value last| :=
  abs_le_max_abs_abs (hs.value_first_le hfirst p hp) (hs.value_le_last hlast p hp)

/-- How far the two sums of a centroid are off. -/
theorem Valid.abs_sums_sub_le (hs : s.Valid) (hfin : ∀ x ∈ s.grid, x.isFinite = true)
    (hlen : s.samples.length ≤ 2 ^ 50) (hweighted : s.weighted.isFinite = true) {U : ℚ}
    (hU : ∀ p ∈ s.samples, |value p.value| ≤ U) :
    |value s.weighted - s.exactWeighted| ≤
        3 * s.samples.length * (2 ^ (-53 : ℤ) * (U * s.exactMass)) +
          2 * s.samples.length * 2 ^ (-1075 : ℤ) ∧
      |value s.mass - s.exactMass| ≤ 3 * s.samples.length * (2 ^ (-53 : ℤ) * s.exactMass) := by
  have hm := hs.membership_nonneg
  have hproduct : ∀ p ∈ s.samples, |value p.value * value p.membership| ≤
      U * value p.membership := by
    intro p hp
    rw [abs_mul, abs_of_nonneg (hm p hp)]
    exact mul_le_mul_of_nonneg_right (hU p hp) (hm p hp)
  constructor
  · rw [exactMass, ← List.sum_map_mul_left]
    refine (abs_total_sub_le (by positivity) hproduct (fun p hp => ?_) hlen hweighted).2
    have h := (abs_value_mul_sub_le (hfin _ (List.mem_map_of_mem hp)) (hs.inUnit_samples p hp)).2
    exact h.trans (by gcongr; exact hproduct p hp)
  · have hexact : ∀ p ∈ s.samples, |value p.membership - value p.membership| ≤
        2 ^ (-53 : ℤ) * value p.membership + 0 := by
      intro p hp
      rw [sub_self, abs_zero, add_zero]
      exact mul_nonneg (by positivity) (hm p hp)
    have h := (abs_total_sub_le le_rfl (fun p hp => (abs_of_nonneg (hm p hp)).le) hexact hlen
      hs.isFinite_mass).2
    rwa [mul_zero, add_zero] at h

/-- **The centroid is beyond the ends of its grid by the slack at most**, if its weighted sum is
finite. -/
theorem Valid.centroid_near (hs : s.Valid) (hfin : ∀ x ∈ s.grid, x.isFinite = true)
    (hheight : 0 < s.height) (hlen : s.samples.length ≤ 2 ^ 49)
    (hweighted : s.weighted.isFinite = true) (hfirst : s.grid.head? = some first)
    (hlast : s.grid.getLast? = some last) (policy : ZeroHeight) :
    value first - s.slack first last ≤ value (s.crisp .centroid policy) ∧
      value (s.crisp .centroid policy) ≤ value last + s.slack first last := by
  have hfirstmem := List.mem_of_head? hfirst
  have hlastmem := List.mem_of_getLast? hlast
  have hU : ∀ p ∈ s.samples, |value p.value| ≤ max |value first| |value last| :=
    fun p hp => hs.abs_value_le hfirst hlast hp
  obtain ⟨hN, hW⟩ := hs.abs_sums_sub_le hfin (by omega) hweighted hU
  have hcount : (1 : ℚ) ≤ s.samples.length := by
    have hpos := List.length_pos_of_mem hfirstmem
    rw [length_grid] at hpos
    exact_mod_cast hpos
  have hcount' : (s.samples.length : ℚ) ≤ 2 ^ 49 := by exact_mod_cast hlen
  have hM : 0 ≤ s.exactMass := List.sum_nonneg fun q hq => by
    obtain ⟨p, hp, rfl⟩ := List.mem_map.1 hq
    exact hs.membership_nonneg p hp
  have hh : 0 < value s.height := ((lt_iff _ _).1 hheight).2.2
  have hh' : value s.height ≤ 1 := ((inUnit_iff _).1 hs.inUnit_height).2.2
  have hheavy : value s.height ≤ value s.mass := ((le_iff _ _).1 hs.height_le_mass).2.2
  have hquotient : value (s.crisp .centroid policy) =
      Double.round (value s.weighted / value s.mass) := by
    rw [hs.crisp_centroid hheight]
    exact (value_div hweighted hs.isFinite_mass (hs.value_mass_pos hheight).ne').2
  have hfirstlimit := abs_lt.1 ((isFinite_iff _).1 (hfin _ hfirstmem)).2
  have hlastlimit := abs_lt.1 ((isFinite_iff _).1 (hfin _ hlastmem)).2
  rw [hquotient]
  constructor
  · -- the bound from below is the one from above for the negative sums
    rw [abs_sub_comm, ← neg_sub_neg] at hN
    have h := round_div_le hcount hcount' hh hh' hheavy hM
      (by rw [abs_neg]; exact le_max_left |value first| |value last|) (by linarith)
      (by rw [neg_mul]; exact neg_le_neg (hs.mul_exactMass_le hfirst)) hN hW
    rw [neg_div, round_neg] at h
    unfold slack
    linarith
  · exact round_div_le hcount hcount' hh hh' hheavy hM (le_max_right _ _) (by linarith)
      (hs.exactWeighted_le hlast) hN hW

end Centroid

/-! ## 4. All methods -/

theorem Valid.samples_ne_nil (hs : s.Valid) (hheight : 0 < s.height) : s.samples ≠ [] := by
  intro hnil
  refine not_lt_of_le (le_of_beq (hs.height_beq_zero_iff.2 ?_)) hheight
  simp [memberships, hnil]

theorem Valid.within_maxima (hs : s.Valid) (hne : s.samples ≠ []) (policy : ZeroHeight) :
    s.Within (s.crisp .smallestOfMaxima policy) ∧ s.Within (s.crisp .largestOfMaxima policy) := by
  have htop := hs.top_ne_nil hne
  have hsub : s.top ⊆ s.grid := alphaCut_sublist_grid.subset
  obtain ⟨hsmallest, hlargest, -⟩ := hs.crispOf?_top hne
  rw [List.head?_eq_some_head htop] at hsmallest
  rw [List.getLast?_eq_some_getLast htop] at hlargest
  rw [crisp_of_eq_some hsmallest policy, crisp_of_eq_some hlargest policy]
  exact ⟨hs.within_of_mem (hsub (List.head_mem htop)),
    hs.within_of_mem (hsub (List.getLast_mem htop))⟩

/-- **The maxima methods give the value of a single sample.** -/
theorem Valid.crisp_single (hs : s.Valid) {p : Sample} (hp : s.samples = [p])
    (hfin : p.value.isFinite = true) {m : Defuzzifier} (hm : m ≠ .centroid) (policy : ZeroHeight) :
    (s.crisp m policy == p.value) = true := by
  have hne : s.samples ≠ [] := by simp [hp]
  have hgrid : s.grid = [p.value] := by simp [grid, hp]
  have hsingle : ∀ {x}, s.Within x → (x == p.value) = true := fun hx =>
    beq_of_le_of_le (hx.le_last _ (by simp [hgrid])) (hx.first_le _ (by simp [hgrid]))
  obtain ⟨hsmallest, hlargest⟩ := hs.within_maxima hne policy
  cases m with
  | centroid => exact absurd rfl hm
  | smallestOfMaxima => exact hsingle hsmallest
  | largestOfMaxima => exact hsingle hlargest
  | meanOfMaxima =>
    have htop : s.top = [p.value] := by
      have hsub : s.top.Sublist s.grid := alphaCut_sublist_grid
      rw [hgrid] at hsub
      exact hsub.eq_of_length_le (List.length_pos_iff.2 (hs.top_ne_nil hne))
    have hsum : value (0 + p.value) = value p.value := by
      rw [(value_add rfl hfin).2, value_zero, zero_add, round_value hfin]
    refine hsingle ((hs.within_mean_iff (by simpa [hgrid] using hfin) hne ?_ policy).2 ?_)
    · simp [htop]
    · rw [htop, isFinite_iff]
      exact ⟨(value_add rfl hfin).1, (congrArg _ hsum).trans_lt ((isFinite_iff _).1 hfin).2⟩

/-- **At positive height, every crisp value is a number.** -/
theorem Valid.isNaN_crisp (hs : s.Valid) (hfin : ∀ x ∈ s.grid, x.isFinite = true)
    (hheight : 0 < s.height) (hlen : s.samples.length < 2 ^ 64) (m : Defuzzifier)
    (policy : ZeroHeight) : (s.crisp m policy).isNaN = false := by
  have hne := hs.samples_ne_nil hheight
  have hgrid : s.grid ≠ [] := by simpa [grid] using hne
  have hnum : ∀ {x}, s.Within x → x.isNaN = false := fun hx =>
    ((isFinite_iff _).1 (hx.isFinite hfin hne)).1
  cases m with
  | centroid =>
    rw [hs.crisp_centroid hheight]
    refine isNaN_div_of_isFinite (isNaN_total fun x hx => ?_) hs.isFinite_mass
      (hs.value_mass_pos hheight).ne'
    obtain ⟨p, hp, rfl⟩ := List.mem_map.1 hx
    exact (abs_value_mul_sub_le (hfin _ (List.mem_map_of_mem hp)) (hs.inUnit_samples p hp)).1
  | meanOfMaxima =>
    have hsub : s.top.Sublist s.grid := alphaCut_sublist_grid
    have hshort := hsub.length_le
    rw [length_grid] at hshort
    rw [crisp_of_eq_some (hs.crispOf?_top hne).2.2 policy, ← Bool.not_eq_true,
      Defuzzifier.isNaN_mean_iff (fun x hx => hfin x (hsub.subset hx)) (by omega)]
    exact hs.top_ne_nil hne
  | smallestOfMaxima => exact hnum (hs.within_maxima hne policy).1
  | largestOfMaxima => exact hnum (hs.within_maxima hne policy).2

/-- **Where the crisp value is.** At positive height it is a number for every method. The smallest
and the largest of maxima are within the grid; the mean of maxima is unless the sum of the maxima is
infinite; for a single sample all three are its value. A centroid that is within the grid has a
finite weighted sum. With exact sums it is within the grid; with a finite weighted sum it is beyond
the ends of the grid by the slack at most. -/
theorem crisp_within (s : FuzzySet) (hs : s.Valid) (hfin : ∀ x ∈ s.grid, x.isFinite = true)
    (hheight : 0 < s.height) (policy : ZeroHeight) :
    (s.samples.length < 2 ^ 64 → ∀ m, (s.crisp m policy).isNaN = false) ∧
    s.Within (s.crisp .smallestOfMaxima policy) ∧
    s.Within (s.crisp .largestOfMaxima policy) ∧
    (s.top.length ≤ 2 ^ 52 →
      (s.Within (s.crisp .meanOfMaxima policy) ↔ (total s.top).isFinite = true)) ∧
    (∀ p, s.samples = [p] → ∀ m, m ≠ .centroid → (s.crisp m policy == p.value) = true) ∧
    (s.Within (s.crisp .centroid policy) → s.weighted.isFinite = true) ∧
    (s.ExactMoments → s.Within (s.crisp .centroid policy)) ∧
    (s.weighted.isFinite = true → s.samples.length ≤ 2 ^ 49 →
      ∀ first last, s.grid.head? = some first → s.grid.getLast? = some last →
        value first - s.slack first last ≤ value (s.crisp .centroid policy) ∧
        value (s.crisp .centroid policy) ≤ value last + s.slack first last) := by
  have hne := hs.samples_ne_nil hheight
  obtain ⟨hsmallest, hlargest⟩ := hs.within_maxima hne policy
  refine ⟨fun hlen m => hs.isNaN_crisp hfin hheight hlen m policy, hsmallest, hlargest,
    fun hlen => hs.within_mean_iff hfin hne hlen policy,
    fun p hp m hm => hs.crisp_single hp (hfin _ (by simp [grid, hp])) hm policy, fun h => ?_,
    fun h => h.within_centroid hs hfin hheight policy, fun hweighted hlen first last hfirst hlast =>
      hs.centroid_near hfin hheight hlen hweighted hfirst hlast policy⟩
  by_contra hinf
  have hbeyond := isFinite_div (Bool.eq_false_iff.2 hinf) hs.isFinite_mass
  rw [← hs.crisp_centroid hheight policy, h.isFinite hfin hne] at hbeyond
  cases hbeyond

theorem crisp_within_plateau : plateau.Valid ∧ (∀ x ∈ plateau.grid, x.isFinite = true) ∧
    0 < plateau.height ∧ plateau.top.length ≤ 2 ^ 52 ∧ (total plateau.top).isFinite = true ∧
    plateau.Within (plateau.crisp .meanOfMaxima .zero) ∧ plateau.ExactMoments ∧
    plateau.Within (plateau.crisp .centroid .zero) := by
  have hvalid : plateau.Valid := by decide
  have hfin : ∀ x ∈ plateau.grid, x.isFinite = true := by decide
  have hheight : 0 < plateau.height := by decide
  have hlen : plateau.top.length ≤ 2 ^ 52 := by decide
  have hsum : (total plateau.top).isFinite = true := by decide +kernel
  have hexact : plateau.ExactMoments :=
    ⟨by decide +kernel, by decide +kernel, by decide +kernel⟩
  obtain ⟨-, -, -, hmean, -, -, hcentroid, -⟩ := crisp_within plateau hvalid hfin hheight .zero
  exact ⟨hvalid, hfin, hheight, hlen, hsum, (hmean hlen).2 hsum, hexact, hcentroid hexact⟩

/-- Two maxima, of which the sum is infinite and so is the mean. -/
example :
    let far : FuzzySet :=
      ⟨"Far", [⟨.ofBits 0x7fe0000000000000, 1⟩, ⟨.ofBits 0x7fe8000000000000, 1⟩]⟩
    far.Valid ∧ (∀ x ∈ far.grid, x.isFinite = true) ∧
      (far.crisp .meanOfMaxima .zero).isFinite = false := by decide +kernel

/-- One sample. -/
def lone : FuzzySet := ⟨"Lone", [⟨3, 0.1⟩]⟩

/-- **The centroid of one sample is not its value**: at three, with membership one tenth, it is more
than three. -/
theorem lone_beyond : lone.Valid ∧ (∀ x ∈ lone.grid, x.isFinite = true) ∧ 0 < lone.height ∧
    (∀ policy, 3 < lone.crisp .centroid policy) ∧
    ¬ ∀ policy, lone.Within (lone.crisp .centroid policy) := by
  have hbeyond : ∀ policy, 3 < lone.crisp .centroid policy := by
    intro policy
    cases policy <;> decide +kernel
  refine ⟨by decide, by decide, by decide, hbeyond, fun h => ?_⟩
  exact not_lt_of_le ((h .zero).le_last 3 rfl) (hbeyond .zero)

end FuzzyControl.FuzzySet
