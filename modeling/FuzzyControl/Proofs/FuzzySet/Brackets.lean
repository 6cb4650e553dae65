import FuzzyControl.Proofs.FuzzySet.Lookup

/-!
# What is looked up exactly, and on the line

The values of a set ascend, so at most one sample is at a value, and at most two neighbours have it
between them. The look-ups find what there is to find. What is not a number is at no sample, and no
two samples have it between them.

* `exact_answers`: the exact look-up, for every double;
* `Brackets`: two neighbours where a value is reached; `Ascends.eq_of_brackets`: no others are;
* `interpolate_answers`: the interpolated look-up, for every double.
-/

namespace FuzzyControl

open Double

namespace FuzzySet

/-! ## 1. The sample at a value -/

/-- **The exact look-up is sound and complete.** It gives a membership iff a sample is at the value,
where the two zeros are equal, and then it is that of the only sample there. Else the value is off
the grid of the set. -/
theorem exact_answers (s : FuzzySet) (hs : s.Valid) (x : Float) :
    (∀ m, s.membershipAt x .exact = .ok m ↔
      ∃ p ∈ s.samples, (p.value == x) = true ∧ p.membership = m) ∧
    (∀ p ∈ s.samples, ∀ q ∈ s.samples, (p.value == x) = true → (q.value == x) = true → p = q) ∧
    ∀ fault, s.membershipAt x .exact = .error fault ↔
      (∀ p ∈ s.samples, (p.value == x) = false) ∧ fault = .offGrid s.name x := by
  have h := hs.ascends
  refine ⟨fun m => h.exact_eq_ok_iff, fun p hp q hq hpx hqx => ?_, fun fault => ⟨?_, ?_⟩⟩
  · exact h.eq_of_beq hp hq (beq_trans hpx (beq_symm hqx))
  · intro herror
    refine ⟨fun p hp => Bool.eq_false_iff.2 fun hpx => ?_, (membershipAt_eq_error_iff.1 herror).2⟩
    have hok := h.exact_eq_ok_iff.2 ⟨p, hp, hpx, rfl⟩
    rw [herror] at hok
    cases hok
  · intro hoff
    obtain ⟨hnone, rfl⟩ := hoff
    refine membershipAt_eq_error_iff.2 ⟨Option.eq_none_iff_forall_ne_some.2 fun m hm => ?_, rfl⟩
    obtain ⟨p, hp, hpx, -⟩ := h.exact_eq_ok_iff.1 (membershipAt_eq_ok_iff.2 hm)
    rw [hnone p hp] at hpx
    cases hpx

/-- A set with a sample at zero. -/
def dip : FuzzySet := ⟨"Dip", [⟨-1, 1⟩, ⟨0, 0.25⟩, ⟨2, 1⟩]⟩

/-- The sample at zero is found for the negative zero, and none for what is not a number. -/
theorem exact_answers_dip : dip.Valid ∧ dip.membershipAt (-0.0) .exact = .ok 0.25 ∧
    dip.membershipAt (0 / 0) .exact = .error (.offGrid "Dip" (0 / 0)) := by
  have hvalid : dip.Valid := by decide
  obtain ⟨hok, -, -⟩ := exact_answers dip hvalid (-0.0)
  obtain ⟨-, -, herror⟩ := exact_answers dip hvalid (0 / 0)
  exact ⟨hvalid, (hok 0.25).2 ⟨⟨0, 0.25⟩, by simp [dip], by decide, rfl⟩,
    (herror _).2 ⟨by decide, rfl⟩⟩

/-! ## 2. The neighbours around a value -/

/-- Two neighbouring samples where `x` is reached: the first is below it, the second is not. -/
structure Brackets (s : FuzzySet) (x : Float) (a b : Sample) : Prop where
  adjacent : [a, b] <:+: s.samples
  below : a.value < x
  reached : x ≤ b.value

section Brackets

variable {s : FuzzySet} {x : Float} {a b a' b' : Sample}

/-- The samples below a value end with the first of the two neighbours, and the others begin with
the second. -/
theorem Ascends.span_of_brackets (h : s.Ascends) (hab : s.Brackets x a b) : ∃ before after,
    s.samples.takeWhile (Sample.isBelow x) = before ++ [a] ∧
      s.samples.dropWhile (Sample.isBelow x) = b :: after := by
  obtain ⟨before, after, hsplit⟩ := hab.adjacent
  have hs : s.samples = before ++ a :: b :: after := by simp [← hsplit]
  have hbelow : ∀ p ∈ before ++ [a], p.isBelow x = true := by
    intro p hp
    refine Sample.isBelow_iff.2 ?_
    rcases List.mem_append.1 hp with hp | hp
    · exact lt_trans (h.lt_of_append hs hp List.mem_cons_self) hab.below
    · exact List.mem_singleton.1 hp ▸ hab.below
  have hb : ¬ b.isBelow x = true :=
    fun hlt => not_lt_of_le hab.reached (Sample.isBelow_iff.1 hlt)
  rw [List.append_cons] at hs
  refine ⟨before, after, ?_, ?_⟩
  · rw [hs, List.takeWhile_append_of_pos hbelow, List.takeWhile_cons_of_neg hb, List.append_nil]
  · rw [hs, List.dropWhile_append_of_pos hbelow, List.dropWhile_cons_of_neg hb]

/-- **A value is reached between no more than two neighbours.** -/
theorem Ascends.eq_of_brackets (h : s.Ascends) (hab : s.Brackets x a b)
    (hab' : s.Brackets x a' b') : a' = a ∧ b' = b := by
  obtain ⟨before, after, htake, hdrop⟩ := h.span_of_brackets hab
  obtain ⟨before', after', htake', hdrop'⟩ := h.span_of_brackets hab'
  have hlast : [a'] = [a] := (List.append_inj' (htake'.symm.trans htake) rfl).2
  exact ⟨List.singleton_inj.1 hlast, (List.cons.inj (hdrop'.symm.trans hdrop)).1⟩

end Brackets

/-! ## 3. The line through the samples -/

/-- **The interpolated look-up finds the right neighbours.** A value is off the grid iff there are no
samples, or it is not a number. Up to the first sample and from the last one on it is level, and in
between it is the line, with every operation rounded, between the only two neighbours that have the
value between them. -/
theorem interpolate_answers (s : FuzzySet) (hs : s.Valid) (x : Float) :
    (∀ fault, s.membershipAt x .interpolate = .error fault ↔
      (s.samples = [] ∨ x.isNaN = true) ∧ fault = .offGrid s.name x) ∧
    ∀ first last, s.samples.head? = some first → s.samples.getLast? = some last →
      x.isNaN = false →
      (x ≤ first.value → s.membershipAt x .interpolate = .ok first.membership) ∧
      (¬ x ≤ first.value → last.value ≤ x →
        s.membershipAt x .interpolate = .ok last.membership) ∧
      (¬ x ≤ first.value → ¬ last.value ≤ x → ∃ a b, s.Brackets x a b ∧
        (∀ a' b', s.Brackets x a' b' → a' = a ∧ b' = b) ∧
        s.membershipAt x .interpolate = .ok (a.membership +
          (x - a.value) * (b.membership - a.membership) / (b.value - a.value))) := by
  have h := hs.ascends
  have hnumbers : ∀ p ∈ s.samples, p.value.isNaN = false := fun p hp => h.isNaN_value hp
  refine ⟨fun fault => ?_, fun first last hfirst hlast hx => ⟨?_, ?_, ?_⟩⟩
  · rw [membershipAt_eq_error_iff]
    exact and_congr_left' (interpolate?_eq_none_iff hnumbers)
  · exact interpolate_of_le hfirst
  · intro _ hbehind
    obtain ⟨before, hbefore⟩ := List.getLast?_eq_some_iff.1 hlast
    exact h.interpolate_of_last_le hbefore hbehind
  · intro hbefore hbehind
    obtain ⟨before, a, b, after, hsplit, hbelow, hreached, hline⟩ :=
      interpolate?_of_between hx hnumbers hfirst hlast hbefore hbehind
    have hab : s.Brackets x a b :=
      ⟨⟨before, after, by simp [hsplit]⟩, hbelow a (by simp), hreached⟩
    exact ⟨a, b, hab, fun a' b' hab' => h.eq_of_brackets hab hab', membershipAt_eq_ok_iff.2 hline⟩

/-- Between the samples at zero and two, the line of the dip goes up from the first of them. -/
theorem interpolate_answers_dip : dip.Valid ∧ (0.5 : Float).isNaN = false ∧
    dip.membershipAt 0.5 .interpolate =
      .ok (0.25 + (0.5 - 0) * (1 - 0.25) / (2 - 0)) := by
  have hvalid : dip.Valid := by decide
  obtain ⟨-, hanswers⟩ := interpolate_answers dip hvalid 0.5
  obtain ⟨-, -, hline⟩ := hanswers ⟨-1, 1⟩ ⟨2, 1⟩ rfl rfl (by decide)
  obtain ⟨a, b, -, honly, hm⟩ := hline (by decide) (by decide)
  have hrise : dip.Brackets 0.5 ⟨0, 0.25⟩ ⟨2, 1⟩ := ⟨⟨[⟨-1, 1⟩], [], rfl⟩, by decide, by decide⟩
  obtain ⟨rfl, rfl⟩ := honly _ _ hrise
  exact ⟨hvalid, by decide, hm⟩

end FuzzySet

end FuzzyControl
