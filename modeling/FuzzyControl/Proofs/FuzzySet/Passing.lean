import FuzzyControl.Proofs.FuzzySet.Interpolation

/-!
# Passing through the samples

The line through the samples is level outside of them, so it passes through the first and the last
one. An interior sample is the end of the line from the sample on its left. On paper the whole
difference of the memberships is added there. In doubles the difference, its product with the
distance, the quotient by the distance and the sum are rounded, and the line can miss the sample by
the last bits.

* `Double.landing`: where the rounded line ends; `abs_landing_sub_le`: at distances of full precision
  it is off by at most `2 ^ -51`, and nothing where nothing is rounded (`landing_of_exact`);
* `Sample.Lands`: the line between two samples ends at the second one; `lineAt_last_beq_iff`;
* `FuzzySet.interpolate_at_sample`: the interpolated membership at a sample;
* `rising_missed`: a sample that the line misses.
-/

namespace FuzzyControl

open Double

/-! ## 1. The end of a rounded line -/

namespace Double

/-- Where the line from a membership `m` to a membership `n` ends, at a distance `d`. -/
def landing (d m n : ℚ) : ℚ := round (m + round (round (d * round (n - m)) / d))

/-- Where neither the difference nor the product is rounded, the line ends where it should. -/
theorem landing_of_exact {d m n : ℚ} (hd : d ≠ 0) (hdiff : round (n - m) = n - m)
    (hproduct : round (d * (n - m)) = d * (n - m)) (hn : round n = n) : landing d m n = n := by
  unfold landing
  rw [hdiff, hproduct, mul_div_cancel_left₀ _ hd, hdiff, add_sub_cancel, hn]

/-- Multiplied by a distance of full precision, rounded, and divided by it again, a part of one comes
back to `2 ^ -53`. -/
theorem abs_round_mul_div_sub_le {d r : ℚ} (hd : 2 ^ (-1022 : ℤ) ≤ d) (hd' : d < limit)
    (hr : |r| ≤ 1) : |round (d * r) / d - r| ≤ 2 ^ (-53 : ℤ) := by
  have hpos : 0 < d := (by positivity : (0 : ℚ) < 2 ^ (-1022 : ℤ)).trans_le hd
  have hlo : -1022 ≤ Int.log 2 d := (Int.zpow_le_iff_le_log one_lt_two hpos).1 hd
  have hup : Int.log 2 d < 1024 := (Int.lt_zpow_iff_log_lt one_lt_two hpos).1 hd'
  have hpower : (2 : ℚ) ^ Int.log 2 d ≤ d := Int.zpow_log_le_self one_lt_two hpos
  have hlt : |d * r| < 2 ^ (Int.log 2 d + 1) := by
    rw [abs_mul, abs_of_pos hpos]
    exact (mul_le_of_le_one_right hpos.le hr).trans_lt (Int.lt_zpow_succ_log_self one_lt_two d)
  have hround := abs_round_sub_le (by omega) (by omega) hlt
  calc |round (d * r) / d - r| = |round (d * r) - d * r| / d := by
        rw [← abs_of_pos hpos, ← abs_div, abs_of_pos hpos, sub_div, mul_div_cancel_left₀ _ hpos.ne']
    _ ≤ 2 ^ (Int.log 2 d + 1 - 54) / d := by gcongr
    _ ≤ 2 ^ (Int.log 2 d + 1 - 54) / 2 ^ Int.log 2 d := by gcongr
    _ = 2 ^ (-53 : ℤ) := by
      rw [← zpow_sub₀ two_ne_zero]
      congr 1
      omega

/-- **At a distance of full precision, the line ends within `2 ^ -51` of the membership**: each of the
four roundings takes it off by at most `2 ^ -53`. -/
theorem abs_landing_sub_le {d m n : ℚ} (hd : 2 ^ (-1022 : ℤ) ≤ d) (hd' : d < limit) (hm : 0 ≤ m)
    (hm' : m ≤ 1) (hn : 0 ≤ n) (hn' : n ≤ 1) : |landing d m n - n| ≤ 2 ^ (-51 : ℤ) := by
  have hstep : ∀ {q : ℚ}, |q| < 2 → |round q - q| ≤ 2 ^ (-53 : ℤ) := fun hq =>
    abs_round_sub_le (t := 1) (by norm_num) (by norm_num) (by simpa using hq)
  have hsmall : (4 : ℚ) * 2 ^ (-53 : ℤ) = 2 ^ (-51 : ℤ) := by norm_num
  have hsmall' : (2 : ℚ) ^ (-53 : ℤ) ≤ 1 / 8 := by norm_num
  unfold landing
  have hdiff : |n - m| ≤ 1 := abs_le.2 ⟨by linarith, by linarith⟩
  have hdiff' := hstep (hdiff.trans_lt one_lt_two)
  have hr : |round (n - m)| ≤ 1 := by
    rw [← round_abs, ← round_one]
    exact round_mono hdiff
  have hproduct := abs_round_mul_div_sub_le hd hd' hr
  rw [← hsmall]
  generalize (2 : ℚ) ^ (-53 : ℤ) = ε at *
  generalize round (n - m) = r at *
  generalize round (d * r) / d = c at *
  rw [abs_le] at hdiff hdiff' hr hproduct
  have hquotient := hstep (abs_lt.2 ⟨by linarith, by linarith⟩ : |c| < 2)
  generalize round c = q at *
  rw [abs_le] at hquotient
  have hsum := hstep (abs_lt.2 ⟨by linarith, by linarith⟩ : |m + q| < 2)
  rw [abs_le] at hsum ⊢
  constructor <;> linarith

end Double

/-! ## 2. The line between two samples -/

namespace Sample

variable {a b : Sample}

/-- The line from one sample to the next ends at the membership of that. -/
structure Lands (a b : Sample) : Prop where
  span : (b.value - a.value).isFinite = true
  landing : Double.landing (Double.value (b.value - a.value)) (Double.value a.membership)
    (Double.value b.membership) = Double.value b.membership

/-- The distance of two samples is finite, and neither the difference of their memberships nor its
product with the distance is rounded. -/
structure Exact (a b : Sample) : Prop where
  span : (b.value - a.value).isFinite = true
  difference : Double.value (b.membership - a.membership) =
    Double.value b.membership - Double.value a.membership
  product : Double.value ((b.value - a.value) * (b.membership - a.membership)) =
    Double.value (b.value - a.value) * Double.value (b.membership - a.membership)

/-- The distance of two samples is finite and has full precision. -/
structure Full (a b : Sample) : Prop where
  span : (b.value - a.value).isFinite = true
  full : leastNormal ≤ b.value - a.value

theorem value_lineAt_last (ha : InUnit a.membership) (hb : InUnit b.membership)
    (hascending : a.value < b.value) (hspan : (b.value - a.value).isFinite = true) :
    (lineAt b.value a b).isNaN = false ∧ Double.value (lineAt b.value a b) =
      Double.landing (Double.value (b.value - a.value)) (Double.value a.membership)
        (Double.value b.membership) := by
  have h := Around.last hascending hspan
  obtain ⟨-, hrise, hproduct⟩ := h.value_riseAt ha hb
  obtain ⟨hnum, hline⟩ := h.value_lineAt ha hb
  refine ⟨hnum, ?_⟩
  rw [hline, hrise, hproduct, (value_sub (isFinite_of_inUnit hb) (isFinite_of_inUnit ha)).2]
  rfl

/-- Over an infinite distance there is no line: an infinity is divided by an infinity. -/
theorem isNaN_lineAt_last (hspan : (b.value - a.value).isFinite = false) :
    (lineAt b.value a b).isNaN = true :=
  isNaN_add _ (isNaN_div (isFinite_mul hspan _) hspan)

/-- **The line ends at the second sample in doubles iff it does in rounded numbers.** -/
theorem lineAt_last_beq_iff (ha : InUnit a.membership) (hb : InUnit b.membership)
    (hascending : a.value < b.value) :
    (lineAt b.value a b == b.membership) = true ↔ Lands a b := by
  rw [beq_iff]
  by_cases hspan : (b.value - a.value).isFinite = true
  · obtain ⟨hnum, hvalue⟩ := value_lineAt_last ha hb hascending hspan
    rw [hvalue]
    exact ⟨fun h => ⟨hspan, h.2.2⟩, fun h => ⟨hnum, hb.isNaN, h.landing⟩⟩
  · refine iff_of_false (fun h => ?_) fun h => hspan h.span
    rw [isNaN_lineAt_last (Bool.eq_false_iff.2 hspan)] at h
    exact absurd h.1 (by simp)

theorem Exact.lands (h : Exact a b) (ha : InUnit a.membership) (hb : InUnit b.membership)
    (hascending : a.value < b.value) : Lands a b := by
  have hbfin := isFinite_of_inUnit hb
  have hdiff := (value_sub hbfin (isFinite_of_inUnit ha)).2
  have hproduct := (value_mul h.span (ha.isFinite_sub hb)).2
  have hpos := (Around.last hascending h.span).distances.2.2
  rw [h.difference] at hdiff
  rw [h.product, h.difference] at hproduct
  exact ⟨h.span, landing_of_exact hpos.ne' hdiff.symm hproduct.symm (round_value hbfin)⟩

/-- **At a distance of full precision, the line ends within `2 ^ -51` of the membership.** -/
theorem Full.abs_lineAt_last_sub_le (h : Full a b) (ha : InUnit a.membership)
    (hb : InUnit b.membership) (hascending : a.value < b.value) :
    |Double.value (lineAt b.value a b) - Double.value b.membership| ≤ 2 ^ (-51 : ℤ) := by
  have hfull := ((le_iff _ _).1 h.full).2.2
  rw [value_leastNormal] at hfull
  have hlimit := (le_abs_self _).trans_lt ((isFinite_iff _).1 h.span).2
  obtain ⟨-, ha₀, ha₁⟩ := (inUnit_iff _).1 ha
  obtain ⟨-, hb₀, hb₁⟩ := (inUnit_iff _).1 hb
  rw [(value_lineAt_last ha hb hascending h.span).2]
  exact abs_landing_sub_le hfull hlimit ha₀ ha₁ hb₀ hb₁

end Sample

/-! ## 3. Sets -/

namespace FuzzySet

section Samples

variable {s : FuzzySet} {a p : Sample} {before after : List Sample}

/-- A sample stands in one place. -/
theorem Ascends.eq_of_split (h : s.Ascends) {before' after' : List Sample}
    (hs : s.samples = before ++ p :: after) (hs' : s.samples = before' ++ p :: after') :
    before = before' := by
  have hp := not_lt_of_le (le_refl (h.isNaN_value (hs ▸ List.mem_append_right _ List.mem_cons_self)))
  have hsplit : s.samples = (before ++ [p]) ++ after := by simp [hs]
  have hbefore : p ∉ before := fun hmem => hp (h.lt_of_append hs hmem List.mem_cons_self)
  have hafter : p ∉ after :=
    fun hmem => hp (h.lt_of_append hsplit (List.mem_append_right _ List.mem_cons_self) hmem)
  exact ((List.append_cons_inj_of_notMem hbefore hafter).1 (hs.symm.trans hs')).1

/-- The line reaches an interior sample from the one on its left. -/
theorem Ascends.interpolate_interior (h : s.Ascends)
    (hs : s.samples = before ++ a :: p :: after) (hafter : after ≠ []) :
    s.membershipAt p.value .interpolate = .ok (lineAt p.value a p) := by
  have hnum := h.isNaN_value (p := p) (by simp [hs])
  have hleft : s.samples = (before ++ [a]) ++ p :: after := by simp [hs]
  have hlt : ∀ q ∈ before ++ [a], q.value < p.value :=
    fun q hq => h.lt_of_append hleft hq List.mem_cons_self
  obtain ⟨init, last, rfl⟩ := (List.eq_nil_or_concat' after).resolve_left hafter
  have hright : s.samples = (before ++ [a, p] ++ init) ++ [last] := by simp [hs]
  have hlast : p.value < last.value := h.lt_of_append hright (by simp) List.mem_cons_self
  have hend : s.samples.getLast? = some last := List.getLast?_eq_some_iff.2 ⟨_, hright⟩
  rw [hs] at hend
  refine membershipAt_eq_ok_iff.2 ?_
  show interpolate? p.value s.samples = _
  rw [hs]
  exact interpolate?_append before _ hlt (le_refl hnum) hend fun hle => not_lt_of_le hle hlast

/-- The neighbour on the left of a sample. -/
theorem Ascends.infix_iff (h : s.Ascends) (hs : s.samples = before ++ p :: after) (a : Sample) :
    [a, p] <:+: s.samples ↔ ∃ init, before = init ++ [a] := by
  refine ⟨fun hinfix => ?_, fun hinit => ?_⟩
  · obtain ⟨init, rest, hsplit⟩ := hinfix
    have hs' : s.samples = (init ++ [a]) ++ p :: rest := by simp [← hsplit]
    exact ⟨init, h.eq_of_split hs hs'⟩
  · obtain ⟨init, rfl⟩ := hinit
    exact ⟨init, after, by simp [hs]⟩

/-- The line is level at the first and the last sample, and comes from the left at others. -/
theorem Ascends.interpolate_at (h : s.Ascends) (hp : p ∈ s.samples) :
    (s.samples.getLast? = some p ∨ ∀ a, ¬ [a, p] <:+: s.samples) ∧
      s.membershipAt p.value .interpolate = .ok p.membership ∨
    ∃ a ∈ s.samples, a.value < p.value ∧ s.samples.getLast? ≠ some p ∧
      (∀ b, [b, p] <:+: s.samples ↔ b = a) ∧
      s.membershipAt p.value .interpolate = .ok (lineAt p.value a p) := by
  have hle := le_refl (h.isNaN_value hp)
  obtain ⟨before, after, hs⟩ := List.append_of_mem hp
  rcases List.eq_nil_or_concat' after with rfl | ⟨init, last, hlast⟩
  · exact .inl ⟨.inl (List.getLast?_eq_some_iff.2 ⟨before, hs⟩), h.interpolate_of_last_le hs hle⟩
  rcases List.eq_nil_or_concat' before with rfl | ⟨front, a, rfl⟩
  · refine .inl ⟨.inr fun a hinfix => ?_, interpolate_of_le (by rw [hs]; rfl) hle⟩
    obtain ⟨init, hinit⟩ := (h.infix_iff hs a).1 hinfix
    exact absurd hinit.symm (by simp)
  · have hafter : after ≠ [] := hlast ▸ List.concat_ne_nil last init
    have ha : a ∈ s.samples := by simp [hs]
    have hlt := h.lt_of_append hs (List.mem_append_right front List.mem_cons_self)
      List.mem_cons_self
    refine .inr ⟨a, ha, hlt, fun hend => ?_, fun b => ?_, ?_⟩
    · obtain ⟨others, hothers⟩ := List.getLast?_eq_some_iff.1 hend
      have hsame := h.eq_of_split hs hothers
      rw [hs, hsame] at hothers
      exact hafter (List.cons.inj (List.append_cancel_left hothers)).2
    · rw [h.infix_iff hs]
      simp [eq_comm]
    · have hs' : s.samples = front ++ a :: p :: after := by simp [hs]
      exact h.interpolate_interior hs' hafter

end Samples

/-- **What is looked up at a sample.** The exact look-up gives its membership. What the interpolated one
gives is equal to it iff the sample is the last, or the line from the sample on its left lands on it.
It does where nothing is rounded, and over distances of full precision it is off by at most
`2 ^ -51`. -/
theorem interpolate_at_sample (s : FuzzySet) (hs : s.Valid) (p : Sample) (hp : p ∈ s.samples) :
    s.membershipAt p.value .exact = .ok p.membership ∧
    ∃ m, s.membershipAt p.value .interpolate = .ok m ∧
      ((m == p.membership) = true ↔
        s.samples.getLast? = some p ∨ ∀ a, [a, p] <:+: s.samples → Sample.Lands a p) ∧
      ((∀ a, [a, p] <:+: s.samples → Sample.Exact a p) → (m == p.membership) = true) ∧
      ((∀ a, [a, p] <:+: s.samples → Sample.Full a p) →
        |value m - value p.membership| ≤ 2 ^ (-51 : ℤ)) := by
  have hgrades := hs.inUnit_samples
  have hpunit := hgrades p hp
  refine ⟨hs.ascends.exact_of_mem hp, ?_⟩
  rcases hs.ascends.interpolate_at hp with ⟨hend, hm⟩ | ⟨a, ha, hlt, hend, hleft, hm⟩
  · have hself := beq_self hpunit.isNaN
    refine ⟨_, hm, iff_of_true hself (hend.imp_right fun hnone a hinfix => ?_), fun _ => hself,
      fun _ => ?_⟩
    · exact absurd hinfix (hnone a)
    · rw [sub_self, abs_zero]
      positivity
  · have hinfix := (hleft a).2 rfl
    have hlands := Sample.lineAt_last_beq_iff (hgrades a ha) hpunit hlt
    refine ⟨_, hm, ?_, fun hexact => ?_, fun hfull => ?_⟩
    · simp only [hlands, hleft, hend, false_or, forall_eq]
    · exact hlands.2 ((hexact a hinfix).lands (hgrades a ha) hpunit hlt)
    · exact (hfull a hinfix).abs_lineAt_last_sub_le (hgrades a ha) hpunit hlt

/-- A set that rises from the first sample to the second and falls again. -/
def rising : FuzzySet := ⟨"Rising", [⟨0, 0⟩, ⟨3, 0.1⟩, ⟨4, 0⟩]⟩

/-- At the second sample, at a distance of three, the line is off by at most `2 ^ -51`. -/
theorem interpolate_at_sample_rising : rising.Valid ∧ ⟨3, 0.1⟩ ∈ rising.samples ∧
    rising.membershipAt 3 .exact = .ok 0.1 ∧
    ∃ m, rising.membershipAt 3 .interpolate = .ok m ∧ |value m - value 0.1| ≤ 2 ^ (-51 : ℤ) := by
  have hvalid : rising.Valid := by decide +kernel
  have hmem : ⟨3, 0.1⟩ ∈ rising.samples := List.mem_cons_of_mem _ List.mem_cons_self
  have hsplit : rising.samples = [⟨0, 0⟩] ++ ⟨3, 0.1⟩ :: [⟨4, 0⟩] := rfl
  obtain ⟨hexact, m, hm, -, -, hnear⟩ := interpolate_at_sample rising hvalid _ hmem
  refine ⟨hvalid, hmem, hexact, m, hm, hnear fun a ha => ?_⟩
  obtain ⟨init, hinit⟩ := (hvalid.ascends.infix_iff hsplit a).1 ha
  have hinit' : [] ++ [⟨0, 0⟩] = init ++ [a] := hinit
  obtain rfl := List.singleton_inj.1 (List.append_inj' hinit' rfl).2
  exact ⟨by decide +kernel, by decide +kernel⟩

/-- **The line misses the second sample.** -/
theorem rising_missed : rising.Valid ∧ (∀ y ∈ rising.grid, y.isFinite = true) ∧
    rising.membershipAt 3 .exact = .ok 0.1 ∧
    ∃ m, rising.membershipAt 3 .interpolate = .ok m ∧ (m == 0.1) = false :=
  ⟨by decide +kernel, by decide +kernel, rfl, _, rfl, by decide +kernel⟩

end FuzzySet

end FuzzyControl
