import FuzzyControl.Proofs.FuzzySet.Cuts
import FuzzyControl.Proofs.FuzzySet.Levels
import FuzzyControl.Proofs.Double.Sums
import FuzzyControl.FuzzySet.Crisp

/-!
# Maxima

Three defuzzifiers read a crisp value off the samples of largest membership. On the samples of a
valid set these are the top cut, whose values ascend, so the least of them is the first and the
greatest is the last. On lists of different lengths the largest membership may have no value, and
then the mean is not undefined, as the other two are, but no number.

* `PeakSampled`: whether a largest membership has a value; `maxima_agree_iff`;
* `Valid.valuesAt_greatest?`: the values of largest membership are the top cut;
* `maxima_of_cut`: what the three methods give for a valid set.
-/

namespace FuzzyControl

open Double

/-! ## 1. Lists of any lengths -/

namespace Defuzzifier

/-- Some value has a membership that no membership exceeds. -/
def PeakSampled (grid memberships : List Float) : Prop :=
  ∃ p ∈ grid.zip memberships, ∀ m ∈ memberships, m ≤ p.2

instance (grid memberships : List Float) : Decidable (PeakSampled grid memberships) :=
  inferInstanceAs (Decidable (∃ _ ∈ _, _))

section Lists

variable {grid memberships : List Float}

theorem valuesAt_ne_nil_iff {maximum : Float} (hmem : ∀ m ∈ memberships, m.isNaN = false)
    (h : greatest? memberships = some maximum) :
    valuesAt maximum (grid.zip memberships) ≠ [] ↔ PeakSampled grid memberships := by
  rw [valuesAt, Ne, List.map_eq_nil_iff, List.filter_eq_nil_iff, PeakSampled]
  push Not
  refine exists_congr fun p => and_congr_right fun hp => ?_
  exact beq_greatest?_iff hmem h (List.of_mem_zip hp).2

/-- With a value for every membership, a largest one has a value. -/
theorem peakSampled_of_length (hmem : ∀ m ∈ memberships, m.isNaN = false) (h0 : memberships ≠ [])
    (hlen : memberships.length ≤ grid.length) : PeakSampled grid memberships := by
  obtain ⟨maximum, hmax⟩ : ∃ maximum, greatest? memberships = some maximum := by
    rwa [Ne, ← greatest?_eq_none_iff, ← Ne, Option.ne_none_iff_exists'] at h0
  obtain ⟨i, hi, rfl⟩ := List.mem_iff_getElem.1 (mem_of_greatest? hmax)
  have hi' : i < (grid.zip memberships).length := by
    rw [List.length_zip]
    omega
  refine ⟨(grid.zip memberships)[i], List.getElem_mem hi', ?_⟩
  rw [List.getElem_zip]
  exact le_of_greatest? hmem hmax

theorem not_peakSampled_nil : ¬ PeakSampled grid [] := by
  intro h
  obtain ⟨p, hp, -⟩ := h
  rw [List.zip_nil_right] at hp
  cases hp

/-- An extreme value of largest membership is missing iff no largest membership has a value. -/
theorem bind_valuesAt_eq_none_iff {pick : List Float → Option Float}
    (hpick : ∀ xs, pick xs = none ↔ xs = []) (hmem : ∀ m ∈ memberships, m.isNaN = false) :
    ((greatest? memberships).bind fun maximum => pick (valuesAt maximum (grid.zip memberships))) =
      none ↔ ¬ PeakSampled grid memberships := by
  cases hmax : greatest? memberships with
  | none =>
    obtain rfl := (greatest?_eq_none_iff memberships).1 hmax
    exact iff_of_true rfl not_peakSampled_nil
  | some maximum =>
    rw [← valuesAt_ne_nil_iff hmem hmax, not_not, Option.bind_some]
    exact hpick _

theorem smallest_eq_none_iff (hmem : ∀ m ∈ memberships, m.isNaN = false) :
    crispOf? .smallestOfMaxima grid memberships = none ↔ ¬ PeakSampled grid memberships :=
  bind_valuesAt_eq_none_iff least?_eq_none_iff hmem

theorem largest_eq_none_iff (hmem : ∀ m ∈ memberships, m.isNaN = false) :
    crispOf? .largestOfMaxima grid memberships = none ↔ ¬ PeakSampled grid memberships :=
  bind_valuesAt_eq_none_iff greatest?_eq_none_iff hmem

theorem mean_eq_none_iff : crispOf? .meanOfMaxima grid memberships = none ↔ memberships = [] :=
  Option.map_eq_none_iff.trans (greatest?_eq_none_iff memberships)

/-- The mean of finite values is a number iff there are some; without values it is zero divided by
zero. -/
theorem isNaN_mean_iff {values : List Float} (hfin : ∀ x ∈ values, x.isFinite = true)
    (hlen : values.length < 2 ^ 64) : (mean values).isNaN = true ↔ values = [] := by
  constructor
  · intro hnan
    by_contra hne
    obtain ⟨hcount, hpos⟩ := ofNat_pos (List.length_pos_iff.2 hne) hlen
    have hnum : (mean values).isNaN = false :=
      isNaN_div_of_isFinite (isNaN_total hfin) hcount hpos.ne'
    rw [hnum] at hnan
    cases hnan
  · rintro rfl
    rfl

/-- A mean is no number iff no largest membership has a value. -/
theorem isNaN_meanOfMaxima_iff {x : Float} (hgrid : ∀ x ∈ grid, x.isFinite = true)
    (hmem : ∀ m ∈ memberships, m.isNaN = false) (hlen : grid.length < 2 ^ 64)
    (h : crispOf? .meanOfMaxima grid memberships = some x) :
    x.isNaN = true ↔ ¬ PeakSampled grid memberships := by
  obtain ⟨maximum, hmax, rfl⟩ := Option.map_eq_some_iff.1 h
  rw [← valuesAt_ne_nil_iff hmem hmax, not_not]
  refine isNaN_mean_iff (fun x hx => ?_) ?_
  · obtain ⟨p, hp, rfl⟩ := List.mem_map.1 hx
    exact hgrid _ (List.of_mem_zip (List.mem_of_mem_filter hp)).1
  · calc (valuesAt maximum (grid.zip memberships)).length ≤ (grid.zip memberships).length := by
          rw [valuesAt, List.length_map]
          exact List.length_filter_le _ _
      _ ≤ grid.length := by
          rw [List.length_zip]
          exact min_le_left _ _
      _ < 2 ^ 64 := hlen

end Lists

/-- **When the values of largest membership are undefined.** The smallest and the largest one are
missing together, if no largest membership has a value. The mean is missing without memberships
only; where there are memberships but no value of a largest one, it is no number. So the three agree
without memberships and with a value for a largest one, as there is if every membership has one. -/
theorem maxima_agree_iff (grid memberships : List Float) (hgrid : ∀ x ∈ grid, x.isFinite = true)
    (hmem : ∀ m ∈ memberships, m.isFinite = true) :
    (crispOf? .smallestOfMaxima grid memberships = none ↔
      crispOf? .largestOfMaxima grid memberships = none) ∧
    (crispOf? .smallestOfMaxima grid memberships = none ↔ ¬ PeakSampled grid memberships) ∧
    (crispOf? .meanOfMaxima grid memberships = none ↔ memberships = []) ∧
    ((crispOf? .meanOfMaxima grid memberships = none ↔
      crispOf? .smallestOfMaxima grid memberships = none) ↔
        memberships = [] ∨ PeakSampled grid memberships) ∧
    (memberships.length ≤ grid.length → (crispOf? .meanOfMaxima grid memberships = none ↔
      crispOf? .smallestOfMaxima grid memberships = none)) ∧
    (grid.length < 2 ^ 64 → ∀ x, crispOf? .meanOfMaxima grid memberships = some x →
      (x.isNaN = true ↔ crispOf? .smallestOfMaxima grid memberships = none)) := by
  have hnum : ∀ m ∈ memberships, m.isNaN = false := fun m hm => ((isFinite_iff m).1 (hmem m hm)).1
  have hempty : memberships = [] → ¬ PeakSampled grid memberships := by
    rintro rfl
    exact not_peakSampled_nil
  rw [smallest_eq_none_iff hnum, largest_eq_none_iff hnum, mean_eq_none_iff]
  refine ⟨Iff.rfl, Iff.rfl, Iff.rfl, by tauto, fun hlen => ?_, fun hlen x hx => ?_⟩
  · have hlong := fun h0 => peakSampled_of_length hnum h0 hlen
    tauto
  · exact isNaN_meanOfMaxima_iff hgrid hnum hlen hx

/-- The middle of three values has the largest membership. -/
theorem maxima_agree_iff_middle :
    (∀ x ∈ ([0, 1, 2] : List Float), x.isFinite = true) ∧
    (∀ m ∈ ([0.25, 0.5, 0.25] : List Float), m.isFinite = true) ∧
    PeakSampled [0, 1, 2] [0.25, 0.5, 0.25] ∧
    (crispOf? .meanOfMaxima ([0, 1, 2] : List Float) [0.25, 0.5, 0.25] = none ↔
      crispOf? .smallestOfMaxima ([0, 1, 2] : List Float) [0.25, 0.5, 0.25] = none) := by
  have hgrid : ∀ x ∈ ([0, 1, 2] : List Float), x.isFinite = true := by decide
  have hmem : ∀ m ∈ ([0.25, 0.5, 0.25] : List Float), m.isFinite = true := by decide
  have hpeak : PeakSampled [0, 1, 2] [0.25, 0.5, 0.25] := by decide
  exact ⟨hgrid, hmem, hpeak,
    (maxima_agree_iff [0, 1, 2] [0.25, 0.5, 0.25] hgrid hmem).2.2.2.1.2 (.inr hpeak)⟩

/-- **Without values there is a mean, which is no number**, but neither a smallest nor a largest
value. -/
theorem maxima_disagree :
    (∃ x, crispOf? .meanOfMaxima ([] : List Float) [1] = some x ∧ x.isNaN = true) ∧
    crispOf? .smallestOfMaxima ([] : List Float) [1] = none ∧
    crispOf? .largestOfMaxima ([] : List Float) [1] = none :=
  ⟨⟨_, rfl, by decide +kernel⟩, rfl, rfl⟩

end Defuzzifier

/-! ## 2. The top cut -/

namespace FuzzySet

variable {s : FuzzySet}

theorem zip_grid_memberships (s : FuzzySet) :
    s.grid.zip s.memberships = s.samples.map fun p => (p.value, p.membership) :=
  List.zip_map'

theorem Valid.isNaN_memberships (hs : s.Valid) : ∀ m ∈ s.memberships, m.isNaN = false :=
  fun m hm => (hs.inUnit m hm).isNaN

theorem Valid.le_height (hs : s.Valid) {m : Float} (hm : m ∈ s.memberships) : m ≤ s.height :=
  (le_iff _ _).2 ⟨hs.isNaN_memberships m hm, hs.inUnit_height.isNaN,
    value_le_foldl_greatest (x := 0) rfl hs.isNaN_memberships m (List.mem_cons_of_mem _ hm)⟩

/-- The height is zero or one of the memberships. -/
theorem height_eq_or_mem (s : FuzzySet) : s.height = 0 ∨ s.height ∈ s.memberships :=
  List.mem_cons.1 (mem_of_foldl greatest_eq_or s.memberships 0)

/-- The height of a valid set is reached by the memberships that none exceeds. -/
theorem Valid.height_le_iff (hs : s.Valid) {m : Float} (hm : m ∈ s.memberships) :
    s.height ≤ m ↔ ∀ n ∈ s.memberships, n ≤ m := by
  constructor
  · intro hle n hn
    exact le_trans (hs.le_height hn) hle
  · intro hpeak
    rcases s.height_eq_or_mem with h | h
    · rw [h]
      exact (hs.inUnit m hm).1
    · exact hpeak _ h

/-- **The values of largest membership are the top cut.** -/
theorem Valid.valuesAt_greatest? (hs : s.Valid) {maximum : Float}
    (h : greatest? s.memberships = some maximum) :
    Defuzzifier.valuesAt maximum (s.grid.zip s.memberships) = s.alphaCut s.height false := by
  rw [Defuzzifier.valuesAt, zip_grid_memberships, List.filter_map, List.map_map, alphaCut_eq]
  refine congrArg (List.map Sample.value) (List.filter_congr fun p hp => ?_)
  have hm : p.membership ∈ s.memberships := List.mem_map_of_mem hp
  rw [Bool.eq_iff_iff, decide_eq_true_iff]
  exact (beq_greatest?_iff hs.isNaN_memberships h hm).trans (hs.height_le_iff hm).symm

/-! ## 3. The three methods on valid sets -/

theorem crisp_of_eq_some {m : Defuzzifier} {x : Float}
    (h : m.crispOf? s.grid s.memberships = some x) (policy : ZeroHeight) :
    s.crisp m policy = x := by
  unfold crisp
  rw [h]

theorem exists_greatest? (hne : s.samples ≠ []) :
    ∃ maximum, greatest? s.memberships = some maximum := by
  have h0 : s.memberships ≠ [] := by simpa [memberships] using hne
  rwa [Ne, ← greatest?_eq_none_iff, ← Ne, Option.ne_none_iff_exists'] at h0

/-- The values at which a set is largest. -/
def top (s : FuzzySet) : List Float := s.alphaCut s.height false

theorem Valid.ascending_top (hs : s.Valid) : s.top.Pairwise (· < ·) :=
  hs.ascends.ascending.sublist alphaCut_sublist_grid

theorem Valid.top_ne_nil (hs : s.Valid) (hne : s.samples ≠ []) : s.top ≠ [] := by
  obtain ⟨maximum, hmax⟩ := exists_greatest? hne
  have hnum := hs.isNaN_memberships
  rw [top, ← hs.valuesAt_greatest? hmax, Defuzzifier.valuesAt_ne_nil_iff hnum hmax]
  exact Defuzzifier.peakSampled_of_length hnum (by simpa [memberships] using hne) (by simp)

/-- What the three methods read off the top of a valid set with samples. -/
theorem Valid.crispOf?_top (hs : s.Valid) (hne : s.samples ≠ []) :
    Defuzzifier.crispOf? .smallestOfMaxima s.grid s.memberships = s.top.head? ∧
    Defuzzifier.crispOf? .largestOfMaxima s.grid s.memberships = s.top.getLast? ∧
    Defuzzifier.crispOf? .meanOfMaxima s.grid s.memberships = some (Defuzzifier.mean s.top) := by
  obtain ⟨maximum, hmax⟩ := exists_greatest? hne
  have hvalues : Defuzzifier.valuesAt maximum (s.grid.zip s.memberships) = s.top :=
    hs.valuesAt_greatest? hmax
  simp only [Defuzzifier.crispOf?, hmax, Option.bind_some, Option.map_some, hvalues]
  exact ⟨least?_of_ascending hs.ascending_top, greatest?_of_ascending hs.ascending_top, trivial⟩

/-- The top of a valid set has one value iff one sample is above all others or equal to them. -/
theorem Valid.length_top_eq_one_iff (hs : s.Valid) :
    s.top.length = 1 ↔ ∃! p, p ∈ s.samples ∧ ∀ q ∈ s.samples, q.membership ≤ p.membership := by
  let peaks := s.samples.filter fun p => Reaches s.height false p.membership
  have hmem : ∀ p, p ∈ peaks ↔ p ∈ s.samples ∧ ∀ q ∈ s.samples, q.membership ≤ p.membership := by
    intro p
    refine List.mem_filter.trans (and_congr_right fun hp => decide_eq_true_iff.trans ?_)
    exact (hs.height_le_iff (List.mem_map_of_mem hp)).trans List.forall_mem_map
  have hnodup : peaks.Nodup := by
    refine ((List.pairwise_map.1 hs.ascends.ascending).imp fun h => ?_).filter _
    rintro rfl
    exact lt_irrefl _ ((lt_iff _ _).1 h).2.2
  rw [top, alphaCut_eq, List.length_map, List.length_eq_one_iff]
  refine exists_congr fun p => ?_
  rw [← List.perm_singleton, List.perm_ext_iff_of_nodup hnodup (List.nodup_singleton p)]
  simp only [hmem, List.mem_singleton]
  exact ⟨fun h => ⟨(h p).2 rfl, fun q hq => (h q).1 hq⟩,
    fun h q => ⟨h.2 q, fun hq => hq ▸ h.1⟩⟩

/-- **The maxima methods read off the top cut.** For a valid set with samples, the cut at its height
is not empty; its first value is the smallest of maxima, its last the largest, and the mean of
maxima is its sum from zero divided by its length, whatever the policy. So the smallest and the
largest one are values of the grid in this order, and they are equal iff one sample alone is
largest. -/
theorem maxima_of_cut (s : FuzzySet) (hs : s.Valid) (hne : s.samples ≠ []) :
    s.alphaCut s.height false ≠ [] ∧
    ∀ policy,
      (s.alphaCut s.height false).head? = some (s.crisp .smallestOfMaxima policy) ∧
      (s.alphaCut s.height false).getLast? = some (s.crisp .largestOfMaxima policy) ∧
      s.crisp .meanOfMaxima policy = (s.alphaCut s.height false).foldl (· + ·) 0 /
        Float.ofNat (s.alphaCut s.height false).length ∧
      s.crisp .smallestOfMaxima policy ∈ s.grid ∧ s.crisp .largestOfMaxima policy ∈ s.grid ∧
      s.crisp .smallestOfMaxima policy ≤ s.crisp .largestOfMaxima policy ∧
      ((s.crisp .smallestOfMaxima policy == s.crisp .largestOfMaxima policy) = true ↔
        ∃! p, p ∈ s.samples ∧ ∀ q ∈ s.samples, q.membership ≤ p.membership) := by
  have htop := hs.top_ne_nil hne
  obtain ⟨hsmallest, hlargest, hmean⟩ := hs.crispOf?_top hne
  refine ⟨htop, fun policy => ?_⟩
  have hhead : s.top.head? = some (s.crisp .smallestOfMaxima policy) := by
    rw [List.head?_eq_some_head htop] at hsmallest ⊢
    rw [crisp_of_eq_some hsmallest policy]
  have hlast : s.top.getLast? = some (s.crisp .largestOfMaxima policy) := by
    rw [List.getLast?_eq_some_getLast htop] at hlargest ⊢
    rw [crisp_of_eq_some hlargest policy]
  have hsub : s.top ⊆ s.grid := alphaCut_sublist_grid.subset
  have hmem := hsub (List.mem_of_head? hhead)
  have hnum := hs.isNaN_grid _ hmem
  exact ⟨hhead, hlast, crisp_of_eq_some hmean policy, hmem, hsub (List.mem_of_getLast? hlast),
    head_le_of_mem hs.ascending_top hhead hnum (List.mem_of_getLast? hlast),
    (head_beq_last_iff hs.ascending_top hhead hlast hnum).trans hs.length_top_eq_one_iff⟩

/-- A set that is largest at two of its three values. -/
def plateau : FuzzySet := ⟨"plateau", [⟨-1, 0.5⟩, ⟨0, 0.75⟩, ⟨2, 0.75⟩]⟩

theorem maxima_of_cut_plateau : plateau.Valid ∧ plateau.samples ≠ [] ∧
    plateau.alphaCut plateau.height false = [0, 2] ∧
    ∀ policy, some 0 = some (plateau.crisp .smallestOfMaxima policy) ∧
      some 2 = some (plateau.crisp .largestOfMaxima policy) ∧
      plateau.crisp .meanOfMaxima policy = 1 := by
  have hvalid : plateau.Valid := by decide
  have hcut : plateau.alphaCut plateau.height false = [0, 2] := by decide
  have h := (maxima_of_cut plateau hvalid (by decide)).2
  rw [hcut] at h
  refine ⟨hvalid, by decide, hcut, fun policy => ?_⟩
  obtain ⟨hsmallest, hlargest, hmean, -⟩ := h policy
  exact ⟨hsmallest, hlargest, hmean.trans (by decide +kernel)⟩

end FuzzySet

end FuzzyControl
