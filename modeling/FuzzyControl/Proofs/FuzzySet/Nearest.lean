import FuzzyControl.Proofs.FuzzySet.Lookup
import FuzzyControl.Proofs.Double.Operations

/-!
# The nearest sample, and beyond the ends

The nearest value is found by one walk along the values, which keeps the first of those with the
least rounded distance. A value at or before the first sample is thereby taken to the first one. At
or behind the last sample the distances get smaller towards the last one, but rounded they can be
equal, and then the walk keeps an earlier sample. The line through the samples is level on both
sides.

* `distance_le`: what is further away is so in rounded distances, or equally far;
* `distance_pos`: values that differ are at a distance, so a sample at a value is the nearest to it
  (`FuzzySet.Ascends.nearest_of_exact`);
* `Sample.Resolved`: behind two samples, and so near that their rounded distances differ;
* `FuzzySet.lookup_beyond`: what is looked up at the ends and beyond;
* `ramp_far`: far behind the last sample, the first one counts as nearest.
-/

namespace FuzzyControl

open Double

/-! ## 1. Rounded distances -/

section Distances

variable {x y z : Float}

/-- The distance of a finite value is a number. -/
theorem isNaN_distance (hx : x.isNaN = false) (hy : y.isFinite = true) :
    (y - x).abs.isNaN = false := by
  rw [isNaN_abs]
  by_cases hfin : x.isFinite = true
  · exact (value_sub hy hfin).1
  · exact (value_sub_of_infinite hx (Bool.eq_false_iff.2 hfin) hy).1

theorem value_distance (hx : x.isFinite = true) (hy : y.isFinite = true) :
    value (y - x).abs = Double.round |value y - value x| := by
  rw [value_abs, (value_sub hy hx).2, round_abs]

/-- **What is further away is no nearer in rounded distances.** -/
theorem distance_le (hx : x.isNaN = false) (hy : y.isFinite = true) (hz : z.isFinite = true)
    (h : |value y - value x| ≤ |value z - value x|) : (y - x).abs ≤ (z - x).abs := by
  refine (le_iff _ _).2 ⟨isNaN_distance hx hy, isNaN_distance hx hz, ?_⟩
  by_cases hfin : x.isFinite = true
  · rw [value_distance hfin hy, value_distance hfin hz]
    exact round_mono h
  · have hinf := Bool.eq_false_iff.2 hfin
    rw [value_abs, value_abs, (value_sub_of_infinite hx hinf hy).2,
      (value_sub_of_infinite hx hinf hz).2]

theorem distance_le_of_before (hy : y.isFinite = true) (hz : z.isFinite = true) (hxy : x ≤ y)
    (hyz : y ≤ z) : (y - x).abs ≤ (z - x).abs := by
  obtain ⟨hx, -, hxy⟩ := (le_iff _ _).1 hxy
  obtain ⟨-, -, hyz⟩ := (le_iff _ _).1 hyz
  refine distance_le hx hy hz ?_
  rw [abs_of_nonneg (by linarith), abs_of_nonneg (by linarith)]
  linarith

theorem distance_le_of_behind (hy : y.isFinite = true) (hz : z.isFinite = true) (hyx : y ≤ x)
    (hzy : z ≤ y) : (y - x).abs ≤ (z - x).abs := by
  obtain ⟨-, hx, hyx⟩ := (le_iff _ _).1 hyx
  obtain ⟨-, -, hzy⟩ := (le_iff _ _).1 hzy
  refine distance_le hx hy hz ?_
  rw [abs_of_nonpos (by linarith), abs_of_nonpos (by linarith)]
  linarith

/-- A value is at no distance from itself, also where one zero is the negative one. -/
theorem distance_of_beq (hx : x.isFinite = true) (h : (y == x) = true) :
    value (y - x).abs = 0 := by
  obtain ⟨hynum, -, heq⟩ := (beq_iff _ _).1 h
  have hy : y.isFinite = true := (isFinite_iff y).2 ⟨hynum, heq ▸ ((isFinite_iff x).1 hx).2⟩
  rw [value_distance hx hy, heq, sub_self, abs_zero, round_zero]

/-- **Another value is at a distance**, however near it is. -/
theorem distance_pos (hx : x.isFinite = true) (hy : y.isNaN = false) (h : ¬ (y == x) = true) :
    0 < value (y - x).abs := by
  have hxnum := isNaN_of_isFinite hx
  by_cases hfin : y.isFinite = true
  · have hne : value y ≠ value x := fun heq => h ((beq_iff y x).2 ⟨hy, hxnum, heq⟩)
    rcases lt_or_gt_of_ne hne with hlt | hlt
    · rw [value_distance hx hfin, abs_sub_comm, ← value_distance hfin hx, value_abs]
      exact abs_pos.2 (value_sub_pos hfin hx hlt).ne'
    · rw [value_abs]
      exact abs_pos.2 (value_sub_pos hx hfin hlt).ne'
  · -- an infinity is farther away than any number
    have hinf : ¬ (y - x).isFinite = true := fun hsub => hfin (isFinite_of_sub hsub).1
    rw [isFinite_iff, not_and] at hinf
    rw [value_abs]
    exact limit_pos.trans_le (not_lt.1 (hinf (isNaN_sub hy hx)))

end Distances

namespace Sample

/-- Behind two samples, at a finite distance that is at most `2 ^ 51` times as large as that of the
two. -/
structure Resolved (x : Float) (a b : Sample) : Prop where
  finite : (x - b.value).isFinite = true
  near : Double.value x - Double.value b.value ≤
    2 ^ 51 * (Double.value b.value - Double.value a.value)

/-- **So near, the rounded distances of two samples differ.** -/
theorem Resolved.distance_lt {x : Float} {a b : Sample} (h : Resolved x a b)
    (ha : a.value.isFinite = true) (hab : a.value < b.value) (hbx : b.value ≤ x) :
    (b.value - x).abs < (a.value - x).abs := by
  obtain ⟨hx, hb⟩ := isFinite_of_sub h.finite
  obtain ⟨hnum, -, hbx⟩ := (le_iff _ _).1 hbx
  obtain ⟨-, -, hab⟩ := (lt_iff _ _).1 hab
  have hxnum := isNaN_of_isFinite hx
  refine (lt_iff _ _).2 ⟨isNaN_distance hxnum hb, isNaN_distance hxnum ha, ?_⟩
  rw [value_distance hx hb, value_distance hx ha, abs_of_nonpos (by linarith),
    abs_of_nonpos (by linarith), neg_sub, neg_sub]
  have hlimit := (le_abs_self _).trans_lt ((isFinite_iff _).1 h.finite).2
  rw [(value_sub hx hb).2] at hlimit
  obtain ⟨i, hi⟩ := exists_multiple ha
  obtain ⟨j, hj⟩ := exists_multiple hb
  obtain ⟨k, hk⟩ := exists_multiple hx
  have hp : Double.value x - Double.value b.value = (k - j : ℤ) * 2 ^ (-1074 : ℤ) := by
    rw [hk, hj, Int.cast_sub, sub_mul]
  have hq : Double.value x - Double.value a.value = (k - i : ℤ) * 2 ^ (-1074 : ℤ) := by
    rw [hk, hi, Int.cast_sub, sub_mul]
  refine round_lt (by linarith) (by linarith) ?_ hlimit hp hq
  rw [sub_sub_sub_cancel_left]
  exact h.near

end Sample

/-! ## 2. The nearest sample -/

namespace FuzzySet

section Ends

variable {s : FuzzySet} {x : Float} {first last : Sample} {rest before : List Sample}

/-- **The nearest look-up gives the first of the nearest samples.** -/
theorem exists_nearest (hx : x.isNaN = false) (hany : ∃ p ∈ s.samples,
    (p.value - x).abs.isNaN = false) : ∃ before p after, s.samples = before ++ p :: after ∧
      (∀ q ∈ before, ¬ (q.value - x).abs ≤ (p.value - x).abs) ∧
      (∀ q ∈ after, ¬ (q.value - x).abs < (p.value - x).abs) ∧
      s.membershipAt x .nearest = .ok p.membership := by
  have hbest := best_walk x s.grid
  have hlookup : s.membershipAt? x .nearest =
      ((nearestFrom x 0 none s.grid).map Prod.fst).bind fun i => s.memberships[i]? := by
    unfold membershipAt? nearestIndex?
    rw [hx]
    rfl
  generalize hgrid : s.grid = values at *
  generalize nearestFrom x 0 none values = best at *
  cases hbest with
  | none hnone =>
    obtain ⟨p, hp, hnumber⟩ := hany
    have hp' : p.value ∈ values := hgrid ▸ List.mem_map_of_mem hp
    rw [hnone _ hp'] at hnumber
    cases hnumber
  | some hnumber hbefore hafter =>
    obtain ⟨before, behind, hs, rfl, hbehind⟩ := List.map_eq_append_iff.1 hgrid
    obtain ⟨p, after, rfl, rfl, rfl⟩ := List.map_eq_cons_iff.1 hbehind
    refine ⟨before, p, after, hs, fun q hq => hbefore _ (List.mem_map_of_mem hq),
      fun q hq => hafter _ (List.mem_map_of_mem hq), membershipAt_eq_ok_iff.2 ?_⟩
    rw [hlookup]
    simp [memberships, hs]

/-- **Where the exact look-up finds a sample, the nearest look-up finds the same.** -/
theorem Ascends.nearest_of_exact {m : Float} (h : s.Ascends) (hx : x.isFinite = true)
    (hm : s.membershipAt x .exact = .ok m) : s.membershipAt x .nearest = .ok m := by
  obtain ⟨p, hp, hbeq, rfl⟩ := h.exact_eq_ok_iff.1 hm
  have hnumber : ∀ q ∈ s.samples, (q.value - x).abs.isNaN = false := by
    intro q hq
    rw [isNaN_abs]
    exact isNaN_sub (h.isNaN_value hq) hx
  obtain ⟨before, q, after, hs, hbefore, hafter, hq⟩ :=
    exists_nearest (isNaN_of_isFinite hx) ⟨p, hp, hnumber p hp⟩
  have hqmem : q ∈ s.samples := hs ▸ List.mem_append_right _ List.mem_cons_self
  have hsame : (q.value == x) = true := by
    by_contra hne
    have hlt : (p.value - x).abs < (q.value - x).abs := by
      refine (lt_iff _ _).2 ⟨hnumber p hp, hnumber q hqmem, ?_⟩
      rw [distance_of_beq hx hbeq]
      exact distance_pos hx (h.isNaN_value hqmem) hne
    rcases List.mem_append.1 (hs ▸ hp) with hmem | hmem
    · exact hbefore p hmem (le_of_lt hlt)
    · rcases List.mem_cons.1 hmem with rfl | hmem
      · exact hne hbeq
      · exact hafter p hmem hlt
  rw [hq, h.eq_of_beq hqmem hp (beq_trans hsame (beq_symm hbeq))]

/-- Before the first sample, the first is the nearest. -/
theorem Ascends.nearest_of_le (h : s.Ascends)
    (hfinite : ∀ p ∈ s.samples, p.value.isFinite = true) (hs : s.samples = first :: rest)
    (hx : x ≤ first.value) :
    s.membershipAt x .nearest = .ok first.membership := by
  have hfirst : first ∈ s.samples := hs ▸ List.mem_cons_self
  obtain ⟨hnum, -, -⟩ := (le_iff _ _).1 hx
  obtain ⟨before, p, after, hsplit, hbefore, -, hp⟩ :=
    exists_nearest hnum ⟨first, hfirst, isNaN_distance hnum (hfinite first hfirst)⟩
  rw [hs] at hsplit
  cases before with
  | nil =>
    obtain rfl := (List.cons.inj hsplit).1
    exact hp
  | cons q before =>
    obtain ⟨rfl, hrest⟩ := List.cons.inj hsplit
    have hpmem : p ∈ rest := hrest ▸ List.mem_append_right _ List.mem_cons_self
    have hs' : s.samples = [first] ++ rest := hs
    have hlt := h.lt_of_append hs' List.mem_cons_self hpmem
    have hle := distance_le_of_before (hfinite _ hfirst)
      (hfinite p (hs ▸ List.mem_cons_of_mem _ hpmem)) hx (le_of_lt hlt)
    exact absurd hle (hbefore _ List.mem_cons_self)

/-- Behind the last sample, the nearest look-up gives the first of the samples that have the rounded
distance of the last one. -/
theorem Ascends.exists_nearest_of_last_le (h : s.Ascends)
    (hfinite : ∀ p ∈ s.samples, p.value.isFinite = true) (hs : s.samples = before ++ [last])
    (hx : last.value ≤ x) :
    ∃ p, s.samples.find? (fun p => (p.value - x).abs == (last.value - x).abs) = some p ∧
      s.membershipAt x .nearest = .ok p.membership := by
  have hlast : last ∈ s.samples := hs ▸ List.mem_append_right _ List.mem_cons_self
  obtain ⟨-, hnum, -⟩ := (le_iff _ _).1 hx
  have hnumber : ∀ p ∈ s.samples, (p.value - x).abs.isNaN = false :=
    fun p hp => isNaN_distance hnum (hfinite p hp)
  -- no sample has a smaller rounded distance than the last one
  have hleast : ∀ p ∈ s.samples, (last.value - x).abs ≤ (p.value - x).abs := by
    intro p hp
    rcases List.mem_append.1 (hs ▸ hp) with hp' | hp'
    · exact distance_le_of_behind (hfinite _ hlast) (hfinite p hp) hx
        (le_of_lt (h.lt_of_append hs hp' List.mem_cons_self))
    · obtain rfl := List.mem_singleton.1 hp'
      exact le_refl (hnumber _ hlast)
  obtain ⟨front, p, after, hsplit, hfront, hafter, hp⟩ := exists_nearest hnum
    ⟨last, hlast, hnumber _ hlast⟩
  have hpmem : p ∈ s.samples := hsplit ▸ List.mem_append_right _ List.mem_cons_self
  have hle : (p.value - x).abs ≤ (last.value - x).abs := by
    rcases List.mem_append.1 (hsplit ▸ hlast) with hmem | hmem
    · exact absurd (hleast p hpmem) (hfront _ hmem)
    · rcases List.mem_cons.1 hmem with rfl | hmem
      · exact le_refl (hnumber _ hlast)
      · by_contra hnot
        exact hafter _ hmem (lt_of_not_le (hnumber p hpmem) (hnumber _ hlast) hnot)
  refine ⟨p, List.find?_eq_some_iff_append.2 ⟨beq_of_le_of_le hle (hleast p hpmem), front, after,
    hsplit, fun q hq => ?_⟩, hp⟩
  rw [Bool.not_eq_true', Bool.eq_false_iff]
  intro hbeq
  exact hfront q hq (le_trans (le_of_beq hbeq) (hleast p hpmem))

/-- **That is the last one itself**, if the last two are resolved. -/
theorem Ascends.nearest_of_last_le (h : s.Ascends)
    (hfinite : ∀ p ∈ s.samples, p.value.isFinite = true) (hs : s.samples = before ++ [last])
    (hx : last.value ≤ x)
    (hresolved : ∀ a, [a, last] <:+ s.samples → Sample.Resolved x a last) :
    s.membershipAt x .nearest = .ok last.membership := by
  obtain ⟨p, hfind, hp⟩ := h.exists_nearest_of_last_le hfinite hs hx
  have hbeq := List.find?_some hfind
  have hpmem := List.mem_of_find?_eq_some hfind
  rcases List.mem_append.1 (hs ▸ hpmem) with hp' | hp'
  · -- a sample before the last two is no nearer than the last but one
    exfalso
    obtain ⟨init, a, rfl⟩ := (List.eq_nil_or_concat' before).resolve_left (List.ne_nil_of_mem hp')
    have ha : a ∈ s.samples := by simp [hs]
    have halt := h.lt_of_append hs (List.mem_append_right init List.mem_cons_self)
      List.mem_cons_self
    have hlt := (hresolved a ⟨init, by simp [hs]⟩).distance_lt (hfinite a ha) halt hx
    have hpa : (a.value - x).abs ≤ (p.value - x).abs := by
      rcases List.mem_append.1 hp' with hinit | heq
      · have hs' : s.samples = init ++ [a, last] := by simp [hs]
        exact distance_le_of_behind (hfinite a ha) (hfinite p hpmem)
          (le_trans (le_of_lt halt) hx) (le_of_lt (h.lt_of_append hs' hinit List.mem_cons_self))
      · obtain rfl := List.mem_singleton.1 heq
        exact le_refl ((beq_iff _ _).1 hbeq).1
    exact not_lt_of_le hpa (lt_of_beq_of_lt (beq_symm hbeq) hlt)
  · rw [hp, List.mem_singleton.1 hp']

/-! ## 3. At the ends and beyond -/

/-- **At the ends of the samples and beyond, the line is level and the nearest sample is the end**, but
for the rounding of distances behind the last sample. There the look-up gives the first of the
samples that have the rounded distance of the last one, which is the last one itself up to a distance
of `2 ^ 51` times that of the last two samples. -/
theorem lookup_beyond (s : FuzzySet) (hs : s.Valid) (hgrid : ∀ y ∈ s.grid, y.isFinite = true)
    (first last : Sample) (hfirst : s.samples.head? = some first)
    (hlast : s.samples.getLast? = some last) (x : Float) :
    (x ≤ first.value → s.membershipAt x .nearest = .ok first.membership ∧
      s.membershipAt x .interpolate = .ok first.membership) ∧
    (last.value ≤ x → s.membershipAt x .interpolate = .ok last.membership ∧
      (∃ p, s.samples.find? (fun p => (p.value - x).abs == (last.value - x).abs) = some p ∧
        s.membershipAt x .nearest = .ok p.membership) ∧
      ((∀ a, [a, last] <:+ s.samples → Sample.Resolved x a last) →
        s.membershipAt x .nearest = .ok last.membership)) := by
  have h := hs.ascends
  have hfinite : ∀ p ∈ s.samples, p.value.isFinite = true :=
    fun p hp => hgrid _ (List.mem_map_of_mem hp)
  obtain ⟨rest, hrest⟩ := List.head?_eq_some_iff.1 hfirst
  obtain ⟨before, hbefore⟩ := List.getLast?_eq_some_iff.1 hlast
  refine ⟨fun hx => ?_, fun hx => ?_⟩
  · exact ⟨h.nearest_of_le hfinite hrest hx, interpolate_of_le hfirst hx⟩
  · exact ⟨h.interpolate_of_last_le hbefore hx, h.exists_nearest_of_last_le hfinite hbefore hx,
      h.nearest_of_last_le hfinite hbefore hx⟩

end Ends

/-- A set that rises from the first sample to the last. -/
def ramp : FuzzySet := ⟨"Ramp", [⟨0, 0⟩, ⟨1, 1⟩]⟩

/-- Five steps behind the last sample, that sample is the nearest. -/
theorem lookup_beyond_ramp : ramp.Valid ∧ (∀ y ∈ ramp.grid, y.isFinite = true) ∧
    ramp.membershipAt 5 .nearest = .ok 1 ∧ ramp.membershipAt 5 .interpolate = .ok 1 ∧
    ramp.membershipAt (-5) .nearest = .ok 0 := by
  have hvalid : ramp.Valid := by decide
  have hgrid : ∀ y ∈ ramp.grid, y.isFinite = true := by decide
  obtain ⟨-, hbehind⟩ := lookup_beyond ramp hvalid hgrid ⟨0, 0⟩ ⟨1, 1⟩ rfl rfl 5
  obtain ⟨hinterpolate, -, hnearest⟩ := hbehind (by decide)
  obtain ⟨hbefore, -⟩ := lookup_beyond ramp hvalid hgrid ⟨0, 0⟩ ⟨1, 1⟩ rfl rfl (-5)
  refine ⟨hvalid, hgrid, hnearest fun a ha => ?_, hinterpolate, (hbefore (by decide)).1⟩
  obtain ⟨init, hinit⟩ := ha
  have hsplit : init ++ [a, ⟨1, 1⟩] = [] ++ [⟨0, 0⟩, ⟨1, 1⟩] := hinit
  obtain ⟨-, hsame⟩ := List.append_inj' hsplit rfl
  obtain rfl := (List.cons.inj hsame).1
  have hfive : value 5 = 5 := by
    show factor .positive * (((5 * 2 ^ 50 : Nat) : ℚ) * 2 ^ (-50 : ℤ)) = 5
    norm_num [factor]
  refine ⟨by decide, ?_⟩
  rw [hfive]
  show 5 - value 1 ≤ 2 ^ 51 * (value 1 - value 0)
  rw [value_one, value_zero]
  norm_num

/-- **Far behind the last sample, the first one counts as nearest**: both distances are rounded to
the same double. -/
theorem ramp_far : ramp.Valid ∧ (∀ y ∈ ramp.grid, y.isFinite = true) ∧ (1 : Float) ≤ 1e17 ∧
    ramp.samples.getLast? = some ⟨1, 1⟩ ∧
    ∃ m, ramp.membershipAt 1e17 .nearest = .ok m ∧ (m == 1) = false :=
  ⟨by decide, by decide, by decide +kernel, rfl, _, rfl, by decide +kernel⟩

end FuzzySet

end FuzzyControl
