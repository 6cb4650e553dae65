import FuzzyControl.Proofs.Double.Arithmetic
import FuzzyControl.FuzzySet.Algebra

/-!
# What a valid set is, and what the algebra keeps of it

The check of the samples looks at neighbours only. Since the order of doubles is transitive, what
it accepts is ascending throughout.

* `WellSampled`, `valid_iff`: validity as a statement about the grid and the memberships;
* `sameGrid_iff`, `zipMembership_eq_ok`: when two sets are joined, and into what;
* `SharesGrid`, `SameSamples`: equal values, and equal samples, where the two zeros are equal;
* `Valid.mapMembership`, `Valid.zipMembership`: an operation on memberships that stays in the unit
  interval keeps a set valid.
-/

namespace FuzzyControl

open Double

/-! ## 1. Samples -/

theorem Sample.isGrade_iff (s : Sample) :
    s.isGrade = true ↔ s.value.isNaN = false ∧ InUnit s.membership := by
  simp [isGrade, InUnit]

/-- No neighbours descend iff the numbers strictly ascend. -/
theorem Sample.descent?_eq_none_iff {samples : List Sample}
    (h : ∀ s ∈ samples, s.value.isNaN = false) :
    descent? samples = none ↔ (samples.map Sample.value).Pairwise (· < ·) := by
  have : IsTrans Float (· < ·) := ⟨fun _ _ _ => Double.lt_trans⟩
  rw [← List.isChain_iff_pairwise]
  fun_induction descent? samples with
  | case1 a b rest hle =>
    simp [not_lt_of_le hle]
  | case2 a b rest hle ih =>
    have ha := h a List.mem_cons_self
    have hb := h b (List.mem_cons_of_mem _ List.mem_cons_self)
    have hlt : a.value < b.value := lt_of_not_le hb ha hle
    have ih' := ih fun s hs => h s (List.mem_cons_of_mem _ hs)
    simpa [hlt] using ih'
  | case3 samples hshort =>
    match samples with
    | [] => simp
    | [a] => simp
    | a :: b :: rest => exact absurd rfl (hshort a b rest)

namespace FuzzySet

@[simp] theorem length_grid (s : FuzzySet) : s.grid.length = s.samples.length :=
  List.length_map _

@[simp] theorem length_memberships (s : FuzzySet) : s.memberships.length = s.samples.length :=
  List.length_map _

/-- A set is given by its name, its grid and its memberships. -/
theorem eq_of_grid_of_memberships {s t : FuzzySet} (hname : s.name = t.name)
    (hgrid : s.grid = t.grid) (hmem : s.memberships = t.memberships) : s = t := by
  obtain ⟨name, samples⟩ := s
  obtain ⟨name', samples'⟩ := t
  obtain rfl : name = name' := hname
  have hlen : samples.length = samples'.length := by simpa using congrArg List.length hgrid
  have hsamples : samples = samples' := by
    refine List.ext_getElem hlen fun i hi hi' => ?_
    have hvalue : samples[i].value = samples'[i].value := by
      simpa [grid, hi, hi'] using congrArg (·[i]?) hgrid
    have hmembership : samples[i].membership = samples'[i].membership := by
      simpa [memberships, hi, hi'] using congrArg (·[i]?) hmem
    generalize samples[i] = p at *
    generalize samples'[i] = q at *
    cases p
    cases q
    cases hvalue
    cases hmembership
    rfl
  rw [hsamples]

/-- The values are numbers that strictly ascend, and the memberships lie in the unit interval. -/
structure WellSampled (s : FuzzySet) : Prop where
  numbers : ∀ x ∈ s.grid, x.isNaN = false
  ascending : s.grid.Pairwise (· < ·)
  unit : ∀ m ∈ s.memberships, 0 ≤ m ∧ m ≤ 1

/-- **The check of the samples finds what is not well sampled.** -/
theorem valid_iff (s : FuzzySet) : s.Valid ↔ s.WellSampled := by
  have hgrade : (∀ p ∈ s.samples, p.isGrade = true) ↔
      (∀ x ∈ s.grid, x.isNaN = false) ∧ ∀ m ∈ s.memberships, InUnit m := by
    simp only [Sample.isGrade_iff, grid, memberships, List.forall_mem_map]
    exact forall₂_and
  show (∀ p ∈ s.samples, p.isGrade = true) ∧ Sample.descent? s.samples = none ↔ _
  rw [hgrade]
  constructor
  · intro h
    obtain ⟨⟨hnum, hunit⟩, hdesc⟩ := h
    rw [Sample.descent?_eq_none_iff fun p hp => hnum _ (List.mem_map_of_mem hp)] at hdesc
    exact ⟨hnum, hdesc, hunit⟩
  · intro h
    refine ⟨⟨h.numbers, h.unit⟩, ?_⟩
    rw [Sample.descent?_eq_none_iff fun p hp => h.numbers _ (List.mem_map_of_mem hp)]
    exact h.ascending

theorem Valid.isNaN_grid {s : FuzzySet} (h : s.Valid) : ∀ x ∈ s.grid, x.isNaN = false :=
  ((valid_iff s).1 h).numbers

theorem Valid.inUnit {s : FuzzySet} (h : s.Valid) : ∀ m ∈ s.memberships, InUnit m :=
  ((valid_iff s).1 h).unit

theorem Valid.inUnit_samples {s : FuzzySet} (h : s.Valid) :
    ∀ p ∈ s.samples, InUnit p.membership := fun _ hp => h.inUnit _ (List.mem_map_of_mem hp)

/-- The samples of a set are accepted as they are iff it is valid. -/
theorem ofSamples_samples_iff (s : FuzzySet) : ofSamples s.name s.samples = .ok s ↔ s.Valid := by
  rw [ofSamples_eq_ok_iff]
  exact and_iff_left rfl

/-! ## 2. Sets on one grid -/

theorem sameGrid_iff (s t : FuzzySet) :
    s.sameGrid t = true ↔ List.Forall₂ (fun x y => (x == y) = true) s.grid t.grid := by
  rw [grid, grid, List.forall₂_map_left_iff, List.forall₂_map_right_iff, List.forall₂_iff_zip,
    sameGrid, Bool.and_eq_true, beq_iff_eq, List.all_eq_true]
  exact and_congr_right fun _ => ⟨fun h a b hab => h (a, b) hab, fun h p hp => h hp⟩

theorem sameGrid_refl {s : FuzzySet} (h : ∀ x ∈ s.grid, x.isNaN = false) :
    s.sameGrid s = true :=
  (sameGrid_iff s s).2 (List.forall₂_same.2 fun x hx => beq_self (h x hx))

/-- Sets on the grid of one set are on one grid. -/
theorem sameGrid_of_left {s t u : FuzzySet} (ht : s.sameGrid t = true) (hu : s.sameGrid u = true) :
    t.sameGrid u = true := by
  rw [sameGrid_iff, List.forall₂_iff_get] at ht hu ⊢
  refine ⟨ht.1.symm.trans hu.1, fun i h₁ h₂ => ?_⟩
  have h₀ : i < s.grid.length := ht.1 ▸ h₁
  exact beq_trans (beq_symm (ht.2 i h₀ h₁)) (hu.2 i h₀ h₂)

theorem sameGrid_congr {s s' t t' : FuzzySet} (hs : s.grid = s'.grid) (ht : t.grid = t'.grid) :
    s.sameGrid t = s'.sameGrid t' := by
  rw [Bool.eq_iff_iff, sameGrid_iff, sameGrid_iff, hs, ht]

/-- Sets are joined iff they are on one grid; the result has the name and the grid of the left
one. -/
theorem zipMembership_eq_ok {f : Float → Float → Float} {s t u : FuzzySet}
    (h : zipMembership f s t = .ok u) :
    u.name = s.name ∧ u.grid = s.grid ∧
      u.memberships = List.zipWith f s.memberships t.memberships := by
  unfold zipMembership at h
  split at h
  · rename_i hgrid
    cases h
    have hlen : s.samples.length = t.samples.length := by
      simpa using ((sameGrid_iff s t).1 hgrid).length_eq
    refine ⟨rfl, ?_, ?_⟩
    · simp only [grid, List.map_zipWith]
      apply List.ext_getElem
      · simp [hlen]
      · simp
    · simp [memberships, List.map_zipWith, List.zipWith_map]
  · cases h

/-! ## 3. Sets that differ in the signs of zeros -/

/-- Sets are on one grid if they have equal values in every place, where the two zeros are equal. -/
def SharesGrid (s t : FuzzySet) : Prop :=
  List.Forall₂ (fun x y : Float => (x == y) = true) s.grid t.grid

/-- Equal values and memberships in every place, where the two zeros are equal. -/
def SameSamples (s t : FuzzySet) : Prop :=
  List.Forall₂ (fun p q : Sample => p.agrees q = true) s.samples t.samples

section SharesGrid

variable {s t u : FuzzySet}

theorem sameGrid_eq_true_iff : s.sameGrid t = true ↔ s.SharesGrid t := sameGrid_iff s t

theorem sameGrid_eq_false_iff : s.sameGrid t = false ↔ ¬ s.SharesGrid t := by
  rw [← sameGrid_eq_true_iff, Bool.not_eq_true]

theorem SharesGrid.length_eq (h : s.SharesGrid t) : s.samples.length = t.samples.length := by
  simpa using List.Forall₂.length_eq h

theorem SharesGrid.symm (h : s.SharesGrid t) : t.SharesGrid s :=
  (List.Forall₂.imp (fun _ _ => beq_symm) h).flip

/-- Sets on the grid of one set are on one grid. -/
theorem SharesGrid.of_left (ht : s.SharesGrid t) (hu : s.SharesGrid u) : t.SharesGrid u :=
  sameGrid_eq_true_iff.1 (sameGrid_of_left (sameGrid_eq_true_iff.2 ht) (sameGrid_eq_true_iff.2 hu))

theorem SharesGrid.trans (h : s.SharesGrid t) (h' : t.SharesGrid u) : s.SharesGrid u :=
  h.symm.of_left h'

theorem Valid.sharesGrid_self (h : s.Valid) : s.SharesGrid s :=
  sameGrid_eq_true_iff.1 (sameGrid_refl h.isNaN_grid)

theorem Valid.sharesGrid_of_grid (hs : s.Valid) (h : t.grid = s.grid) : s.SharesGrid t := by
  rw [SharesGrid, h]
  exact hs.sharesGrid_self

theorem agrees_iff_sameSamples : s.agrees t = true ↔ s.name = t.name ∧ s.SameSamples t := by
  rw [SameSamples, List.forall₂_iff_zip, agrees, Bool.and_eq_true, Bool.and_eq_true, beq_iff_eq,
    beq_iff_eq, List.all_eq_true, and_assoc]
  exact and_congr_right fun _ => and_congr_right fun _ =>
    ⟨fun h p q hpq => h (p, q) hpq, fun h p hp => h hp⟩

theorem sameSamples_iff : s.SameSamples t ↔ s.SharesGrid t ∧
    List.Forall₂ (fun x y : Float => (x == y) = true) s.memberships t.memberships := by
  rw [SharesGrid, grid, grid, memberships, memberships, List.forall₂_map_left_iff,
    List.forall₂_map_right_iff, List.forall₂_map_left_iff, List.forall₂_map_right_iff, SameSamples,
    List.forall₂_iff_zip, List.forall₂_iff_zip, List.forall₂_iff_zip]
  simp only [Sample.agrees, Bool.and_eq_true]
  constructor
  · intro h
    obtain ⟨hlen, hboth⟩ := h
    exact ⟨⟨hlen, fun hpq => (hboth hpq).1⟩, hlen, fun hpq => (hboth hpq).2⟩
  · intro h
    obtain ⟨⟨hlen, hvalue⟩, -, hmembership⟩ := h
    exact ⟨hlen, fun hpq => ⟨hvalue hpq, hmembership hpq⟩⟩

/-- Sets agree iff their names are the same and their values and memberships are equal. -/
theorem agrees_iff (s t : FuzzySet) : s.agrees t = true ↔ s.name = t.name ∧
    List.Forall₂ (fun x y => (x == y) = true) s.grid t.grid ∧
      List.Forall₂ (fun x y => (x == y) = true) s.memberships t.memberships :=
  agrees_iff_sameSamples.trans (and_congr_right fun _ => sameSamples_iff)

end SharesGrid

/-! ## 4. Operations that keep sets valid -/

/-- A set on the grid of a valid one is valid if its memberships are. -/
theorem Valid.of_grid {s t : FuzzySet} (h : s.Valid) (hgrid : t.grid = s.grid)
    (ht : ∀ m ∈ t.memberships, InUnit m) : t.Valid := by
  rw [valid_iff] at h ⊢
  exact ⟨hgrid ▸ h.numbers, hgrid ▸ h.ascending, ht⟩

theorem valid_empty (name : String) : (empty name).Valid := ⟨by simp [empty], rfl⟩

theorem Valid.mapMembership {s : FuzzySet} (h : s.Valid) {f : Float → Float}
    (hf : ∀ m, InUnit m → InUnit (f m)) : (s.mapMembership f).Valid := by
  refine h.of_grid (grid_mapMembership f s) ?_
  rw [memberships_mapMembership]
  intro m hm
  obtain ⟨m', hm', rfl⟩ := List.mem_map.1 hm
  exact hf m' (h.inUnit m' hm')

theorem Valid.rename {s : FuzzySet} (h : s.Valid) (name : String) : (s.rename name).Valid := h

theorem Valid.complement {s : FuzzySet} (h : s.Valid) : s.complement.Valid :=
  h.mapMembership fun _ => InUnit.one_sub

theorem Valid.zipMembership {f : Float → Float → Float} {s t u : FuzzySet} (hs : s.Valid)
    (ht : t.Valid) (hf : ∀ m n, InUnit m → InUnit n → InUnit (f m n))
    (h : FuzzySet.zipMembership f s t = .ok u) : u.Valid := by
  obtain ⟨-, hgrid, hmem⟩ := zipMembership_eq_ok h
  refine hs.of_grid hgrid ?_
  rw [hmem]
  intro m hm
  obtain ⟨i, hi, rfl⟩ := List.mem_iff_getElem.1 hm
  rw [List.getElem_zipWith]
  exact hf _ _ (hs.inUnit _ (List.getElem_mem _)) (ht.inUnit _ (List.getElem_mem _))

theorem Valid.union {s t u : FuzzySet} (hs : s.Valid) (ht : t.Valid) (h : s.union t = .ok u) :
    u.Valid :=
  hs.zipMembership ht (fun _ _ => InUnit.greatest) h

theorem Valid.intersection {s t u : FuzzySet} (hs : s.Valid) (ht : t.Valid)
    (h : s.intersection t = .ok u) : u.Valid :=
  hs.zipMembership ht (fun _ _ => InUnit.least) h

end FuzzySet

end FuzzyControl
