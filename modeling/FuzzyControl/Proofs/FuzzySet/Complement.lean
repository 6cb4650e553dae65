import FuzzyControl.Proofs.FuzzySet.Validity
import FuzzyControl.Proofs.Double.Multiples
import FuzzyControl.Proofs.Double.Operations

/-!
# The complement of the complement

Twice what is left to one is what there was, if nothing is rounded on the way. From a half on the
doubles are whole parts of one, `2 ^ 53` to the one, and such parts can be taken from one exactly. A
finer membership is rounded to them at the first step, and no later step changes it again.

* `InParts`: the numbers that are made of such parts;
* `inParts_round_one_sub`: what a membership leaves to one is made of them;
* `InUnit.one_sub_one_sub_beq_iff`, `InUnit.abs_one_sub_one_sub_le`: which memberships come back,
  and how far the others are off;
* `complement_complement`: the same for sets.
-/

namespace FuzzyControl.Double

/-! ## 1. Parts of one -/

/-- A number of parts of which one has `2 ^ 53`. -/
def InParts (q : ℚ) : Prop := ∃ k : ℤ, q = k * 2 ^ (-53 : ℤ)

section Parts

variable {q : ℚ}

theorem InParts.one_sub (h : InParts q) : InParts (1 - q) := by
  obtain ⟨k, rfl⟩ := h
  refine ⟨2 ^ 53 - k, ?_⟩
  have hone : (1 : ℚ) = 2 ^ 53 * 2 ^ (-53 : ℤ) := by norm_num
  rw [Int.cast_sub, Int.cast_pow, Int.cast_ofNat, sub_mul, ← hone]

/-- Up to one, parts are not rounded. -/
theorem InParts.round_eq (h : InParts q) (h0 : 0 ≤ q) (h1 : q ≤ 1) : round q = q := by
  rcases h0.eq_or_lt with rfl | hpos
  · exact round_zero
  rcases h1.eq_or_lt with rfl | hlt
  · exact round_one
  obtain ⟨k, hk⟩ := h
  have hgrid : gridExponent q ≤ 0 - 53 := gridExponent_le (by norm_num) hpos (by simpa using hlt)
  rw [round_of_nonneg h0, roundToGrid_of_step hgrid hk, min_eq_left (h1.trans one_lt_limit.le)]

/-- From a half up to one, a number is rounded to parts. -/
theorem inParts_round (h : 1 / 2 ≤ q) (h1 : q ≤ 1) : InParts (round q) := by
  have hpos : 0 < q := by linarith
  have hgrid : -53 ≤ gridExponent q := le_gridExponent hpos (by norm_num; linarith)
  obtain ⟨i, hi⟩ := Int.eq_ofNat_of_zero_le (Int.sub_nonneg_of_le hgrid)
  have hlimit : round q < limit :=
    ((round_mono h1).trans_eq round_one).trans_lt one_lt_limit
  refine ⟨nearestEven (q / 2 ^ gridExponent q) * 2 ^ i, ?_⟩
  rw [← roundToGrid_eq_round hpos.le hlimit, roundToGrid, Int.cast_mul, Int.cast_pow,
    Int.cast_ofNat, mul_assoc, ← zpow_natCast, ← zpow_add₀ two_ne_zero,
    show (i : ℤ) + -53 = gridExponent q by omega]

end Parts

/-! ## 2. Memberships taken from one -/

section Membership

variable {m : Float}

/-- A membership of a half or more is made of parts. -/
theorem InUnit.inParts_of_half_le (h : InUnit m) (hhalf : 1 / 2 ≤ value m) :
    InParts (value m) := by
  have hparts := inParts_round hhalf ((inUnit_iff m).1 h).2.2
  rwa [round_value (isFinite_of_inUnit h)] at hparts

/-- **What a membership leaves to one is made of parts**: either the membership is, or what it leaves
is a half at least and is rounded to them. -/
theorem inParts_round_one_sub (h : InUnit m) : InParts (round (1 - value m)) := by
  obtain ⟨-, h0, h1⟩ := (inUnit_iff m).1 h
  rcases le_total (1 / 2) (value m) with hhalf | hhalf
  · have hparts := (h.inParts_of_half_le hhalf).one_sub
    rwa [hparts.round_eq (by linarith) (by linarith)]
  · exact inParts_round (by linarith) (by linarith)

/-- So the second difference is exact. -/
theorem InUnit.value_one_sub_one_sub (h : InUnit m) :
    value (1 - (1 - m)) = 1 - round (1 - value m) := by
  obtain ⟨-, h0, h1⟩ := (inUnit_iff _).1 h.one_sub
  rw [h.one_sub.value_one_sub]
  rw [h.value_one_sub] at h0 h1 ⊢
  exact (inParts_round_one_sub h).one_sub.round_eq (by linarith) (by linarith)

/-- **A membership comes back iff it is made of parts.** -/
theorem InUnit.one_sub_one_sub_beq_iff (h : InUnit m) :
    (1 - (1 - m) == m) = true ↔ InParts (value m) := by
  obtain ⟨hnum, h0, h1⟩ := (inUnit_iff m).1 h
  rw [beq_iff, h.value_one_sub_one_sub]
  constructor
  · intro hback
    rw [← hback.2.2]
    exact (inParts_round_one_sub h).one_sub
  · intro hparts
    refine ⟨h.one_sub.one_sub.isNaN, hnum, ?_⟩
    rw [hparts.one_sub.round_eq (by linarith) (by linarith), sub_sub_cancel]

/-- **Otherwise it is off by half a part at most.** -/
theorem InUnit.abs_one_sub_one_sub_le (h : InUnit m) :
    |value (1 - (1 - m)) - value m| ≤ 2 ^ (-54 : ℤ) := by
  obtain ⟨-, h0, h1⟩ := (inUnit_iff m).1 h
  rw [h.value_one_sub_one_sub,
    show 1 - round (1 - value m) - value m = -(round (1 - value m) - (1 - value m)) by ring, abs_neg]
  rcases h0.eq_or_lt with hzero | hpos
  · rw [← hzero, sub_zero, round_one, sub_self, abs_zero]
    positivity
  · refine abs_round_sub_le (t := 0) (by norm_num) (by norm_num) ?_
    rw [zpow_zero, abs_of_nonneg (by linarith)]
    linarith

end Membership

end FuzzyControl.Double

namespace FuzzyControl.FuzzySet

open Double

/-! ## 3. Sets -/

variable {s : FuzzySet}

theorem mapMembership_mapMembership (f g : Float → Float) (s : FuzzySet) :
    (s.mapMembership f).mapMembership g = s.mapMembership fun m => g (f m) := by
  simp [mapMembership, Function.comp_def]

theorem complement_complement_eq (s : FuzzySet) :
    s.complement.complement = s.mapMembership fun m => 1 - (1 - m) :=
  mapMembership_mapMembership ..

/-- Sets made of one valid set agree iff every membership of it is made into equal ones. -/
theorem Valid.mapMembership_agrees_iff (hs : s.Valid) (f g : Float → Float) :
    (s.mapMembership f).agrees (s.mapMembership g) = true ↔
      ∀ m ∈ s.memberships, (f m == g m) = true := by
  rw [agrees_iff, grid_mapMembership, grid_mapMembership, memberships_mapMembership,
    memberships_mapMembership, List.forall₂_map_left_iff, List.forall₂_map_right_iff,
    List.forall₂_same, List.forall₂_same]
  exact ⟨fun h => h.2.2, fun h => ⟨rfl, fun x hx => beq_self (hs.isNaN_grid x hx), h⟩⟩

/-- A set comes back iff all its memberships do. -/
theorem Valid.complement_complement_agrees_iff (hs : s.Valid) :
    s.complement.complement.agrees s = true ↔ ∀ m ∈ s.memberships, InParts (value m) := by
  have hself : s.mapMembership (fun m => m) = s := by simp [FuzzySet.mapMembership]
  have hagrees := hs.mapMembership_agrees_iff (fun m => 1 - (1 - m)) fun m => m
  rw [hself, ← complement_complement_eq] at hagrees
  exact hagrees.trans (forall₂_congr fun m hm => (hs.inUnit m hm).one_sub_one_sub_beq_iff)

/-- The memberships of a complement are made of parts. -/
theorem Valid.inParts_complement (hs : s.Valid) :
    ∀ m ∈ s.complement.memberships, InParts (value m) := by
  rw [FuzzySet.complement, memberships_mapMembership, List.forall_mem_map]
  intro m hm
  rw [(hs.inUnit m hm).value_one_sub]
  exact inParts_round_one_sub (hs.inUnit m hm)

/-- **The complement of the complement** has the name and the grid of the set. It agrees with the set
iff every membership is made of parts of which one has `2 ^ 53`, as all memberships from a half on
are; the others are off by half such a part at most. Further complements change nothing any more. -/
theorem complement_complement (s : FuzzySet) (hs : s.Valid) :
    s.complement.complement.name = s.name ∧ s.complement.complement.grid = s.grid ∧
    (s.complement.complement.agrees s = true ↔ ∀ m ∈ s.memberships, InParts (value m)) ∧
    (∀ m ∈ s.memberships, 1 / 2 ≤ value m → InParts (value m)) ∧
    List.Forall₂ (fun m n => |value n - value m| ≤ 2 ^ (-54 : ℤ)) s.memberships
      s.complement.complement.memberships ∧
    s.complement.complement.complement.agrees s.complement = true := by
  refine ⟨rfl, ?_, hs.complement_complement_agrees_iff,
    fun m hm => (hs.inUnit m hm).inParts_of_half_le, ?_,
    hs.complement.complement_complement_agrees_iff.2 hs.inParts_complement⟩
  · rw [complement_complement_eq, grid_mapMembership]
  · rw [complement_complement_eq, memberships_mapMembership, List.forall₂_map_right_iff,
      List.forall₂_same]
    exact fun m hm => (hs.inUnit m hm).abs_one_sub_one_sub_le

/-- A tenth, and a half. -/
def pale : FuzzySet := ⟨"Pale", [⟨0, 0.1⟩, ⟨1, 0.5⟩]⟩

/-- A tenth is not made of parts, and comes back smaller. -/
theorem complement_complement_pale : pale.Valid ∧
    pale.complement.complement.complement.agrees pale.complement = true ∧
    ¬ ∀ m ∈ pale.memberships, InParts (value m) := by
  have hvalid : pale.Valid := by decide
  obtain ⟨-, -, hiff, -, -, hthree⟩ := complement_complement pale hvalid
  exact ⟨hvalid, hthree, fun hparts => absurd (hiff.2 hparts) (by decide)⟩

/-- **The complement of the complement is not always the set.** -/
theorem pale_changed : pale.Valid ∧
    pale.complement.complement = ⟨"Pale", [⟨0, 0.09999999999999998⟩, ⟨1, 0.5⟩]⟩ ∧
    pale.complement.complement.agrees pale = false := by
  decide

end FuzzyControl.FuzzySet
