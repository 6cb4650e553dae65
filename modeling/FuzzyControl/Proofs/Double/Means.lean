import FuzzyControl.Proofs.Double.Multiples
import FuzzyControl.Proofs.Double.Sums

/-!
# Means of ascending doubles

A mean of equal doubles can leave their place: three times a tenth is rounded up. Doubles that
ascend make room for that. The `n`-th one after the first is `n` steps above it, and all before the
last are a step below it, so no partial sum is rounded across the multiple of the first or of the
last.

* `onGrid_value`: a finite double is not rounded;
* `climb_le_last`: how far an ascending list has come;
* `mul_le_total`, `total_le_mul`: a finite sum is between the multiples of the first and the last;
* `mean_between`: so the mean is between the first and the last.
-/

namespace FuzzyControl.Double

open Float.Model (Format UnpackedFloat)
open Float.Model.UnpackedFloat hiding round normalize

/-! ## 1. Finite doubles on their grid -/

theorem onGrid_value {x : Float} (hx : x.isFinite = true) : OnGrid (value x) := by
  have hlimit := ((isFinite_iff x).1 hx).2
  have hround : round |value x| = |value x| := by rw [round_abs, round_value hx]
  rw [← hround] at hlimit
  exact (roundToGrid_eq_round (abs_nonneg _) hlimit).trans hround

/-- What is added up to a finite double is finite. -/
theorem isFinite_of_total {xs : List Float} (h : (total xs).isFinite = true) :
    ∀ x ∈ xs, x.isFinite = true := by
  induction xs using List.reverseRecOn with
  | nil => simp
  | append_singleton xs y ih =>
    rw [total_concat] at h
    obtain ⟨hxs, hy⟩ := isFinite_of_add h
    intro x hx
    rcases List.mem_append.1 hx with hx | hx
    · exact ih hxs x hx
    · rwa [List.mem_singleton.1 hx]

/-! ## 2. Sums of ascending doubles -/

/-- **How far an ascending list has come** from its first entry. -/
theorem climb_le_last {x y : Float} {xs : List Float} (h : (x :: (xs ++ [y])).Pairwise (· < ·))
    (hfin : ∀ z ∈ x :: (xs ++ [y]), z.isFinite = true) (hlen : xs.length < 2 ^ 52) :
    value x + climb (value x) (xs.length + 1) ≤ value y := by
  have hx := onGrid_value (hfin x List.mem_cons_self)
  induction xs using List.reverseRecOn generalizing y with
  | nil =>
    have hxy := (List.pairwise_cons.1 h).1 y List.mem_cons_self
    refine climb_succ hx (onGrid_value (hfin y (by simp))) hlen ?_ ((lt_iff x y).1 hxy).2.2
    rw [List.length_nil, climb_start hx, add_zero]
  | append_singleton xs z ih =>
    have hzy : z < y :=
      (List.pairwise_append.1 (List.pairwise_cons.1 h).2).2.2 z (by simp) y (by simp)
    rw [List.length_append, List.length_singleton] at hlen ⊢
    have hsub : (x :: (xs ++ [z])).Sublist (x :: (xs ++ [z] ++ [y])) := by simp
    have hz := ih (h.sublist hsub) (fun w hw => hfin w (hsub.subset hw)) (by omega)
    exact climb_succ hx (onGrid_value (hfin y (by simp))) hlen hz ((lt_iff z y).1 hzy).2.2

/-- **A finite sum is not below the multiple of the first entry.** -/
theorem mul_le_total {x : Float} {xs : List Float} (h : (x :: xs).Pairwise (· < ·))
    (hlen : xs.length < 2 ^ 52) (hfin : (total (x :: xs)).isFinite = true) :
    (xs.length + 1) * value x ≤ value (total (x :: xs)) := by
  have hall := isFinite_of_total hfin
  have hx := hall x List.mem_cons_self
  induction xs using List.reverseRecOn with
  | nil =>
    have hsum : value (total [x]) = round (value 0 + value x) := (value_add rfl hx).2
    rw [hsum, value_zero, zero_add, round_value hx, List.length_nil]
    simp
  | append_singleton xs y ih =>
    rw [← List.cons_append, total_concat] at hfin ⊢
    obtain ⟨hxs, hy⟩ := isFinite_of_add hfin
    rw [List.length_append, List.length_singleton] at hlen ⊢
    have hsum := ih (h.sublist (by simp)) (by omega) hxs (isFinite_of_total hxs)
    have hclimb := climb_le_last h hall (by omega)
    have hval := (value_add hxs hy).2
    have hlimit := (abs_lt.1 ((isFinite_iff _).1 hfin).2).2
    rw [hval] at hlimit ⊢
    exact mul_le_round (onGrid_value hx) hlen (by push_cast; linarith) hlimit

/-- **A finite sum is not above the multiple of what bounds the entries.** -/
theorem total_le_mul {xs : List Float} (h : xs.Pairwise (· < ·)) (hlen : xs.length ≤ 2 ^ 52)
    (hfin : (total xs).isFinite = true) {q : ℚ} (hq : ∀ x ∈ xs, value x ≤ q) :
    value (total xs) ≤ xs.length * q := by
  induction xs using List.reverseRecOn generalizing q with
  | nil =>
    rw [List.length_nil, Nat.cast_zero, zero_mul]
    exact value_zero.le
  | append_singleton xs y ih =>
    have hall := isFinite_of_total hfin
    rw [total_concat] at hfin ⊢
    obtain ⟨hxs, hy⟩ := isFinite_of_add hfin
    rw [List.length_append, List.length_singleton] at hlen ⊢
    have hgrid := (onGrid_value hy).neg
    -- all before the last one are a step below it
    have hbelow : ∀ x ∈ xs, value x ≤ value y - climb (-value y) 1 := by
      intro x hx
      have hxy : x < y := (List.pairwise_append.1 h).2.2 x hx y (by simp)
      have hxgrid := (onGrid_value (hall x (by simp [hx]))).neg
      have hstep := climb_succ (q := -value y) hgrid hxgrid (n := 0) (by norm_num)
        (by rw [climb_start hgrid, add_zero]) (neg_lt_neg ((lt_iff x y).1 hxy).2.2)
      linarith
    have hsum := ih (h.sublist (by simp)) (by omega) hxs hbelow
    have hroom := climb_le_mul (n := xs.length) hgrid
    have hval := (value_add hxs hy).2
    have hlimit := (abs_lt.1 ((isFinite_iff _).1 hfin).2).1
    rw [hval] at hlimit ⊢
    have hmirror := mul_le_round (n := xs.length) (q := -(value (total xs) + value y)) hgrid
      (by omega) (by linarith) (by rw [round_neg]; linarith)
    rw [round_neg] at hmirror
    calc round (value (total xs) + value y) ≤ (xs.length + 1) * value y := by linarith
      _ ≤ (xs.length + 1 : Nat) * q := by
        push_cast
        gcongr
        exact hq y (by simp)

/-! ## 3. Means -/

/-- What is not finite does not become finite by a finite divisor. -/
theorem isFinite_div {x y : Float} (hx : x.isFinite = false) (hy : y.isFinite = true) :
    (x / y).isFinite = false := by
  show (unpack Format.binary64 (pack Format.binary64
    (UnpackedFloat.div Format.binary64 x.toModel.unpack y.toModel.unpack))).isFinite = false
  change x.toModel.unpack.isFinite = false at hx
  change y.toModel.unpack.isFinite = true at hy
  generalize x.toModel.unpack = u at *
  generalize y.toModel.unpack = v at *
  refine isFinite_pack ?_
  cases u with
  | notANumber => cases v <;> rfl
  | infinity s =>
    cases v with
    | notANumber => cases hy
    | infinity t => cases hy
    | zero t => rfl
    | finite t n e hn => rfl
  | zero s => cases hx
  | finite s m e hm => cases hx

/-- A finite sum divided by the number of its entries is rounded once more. -/
theorem value_div_length {xs : List Float} (hne : xs ≠ []) (hlen : xs.length ≤ 2 ^ 53)
    (hfin : (total xs).isFinite = true) :
    (total xs / Float.ofNat xs.length).isNaN = false ∧
      value (total xs / Float.ofNat xs.length) = round (value (total xs) / xs.length) := by
  have hpos : 0 < xs.length := List.length_pos_iff.2 hne
  obtain ⟨hcount, hcountpos⟩ := ofNat_pos hpos (by omega)
  have h := value_div hfin hcount hcountpos.ne'
  rwa [(value_ofNat _).2, round_natCast hlen] at h

/-- **The mean of ascending doubles is between the first and the last**, if their sum is finite. -/
theorem mean_between {xs : List Float} (h : xs.Pairwise (· < ·)) (hlen : xs.length ≤ 2 ^ 52)
    (hfin : (total xs).isFinite = true) {x y : Float} (hx : xs.head? = some x)
    (hy : xs.getLast? = some y) :
    x ≤ total xs / Float.ofNat xs.length ∧ total xs / Float.ofNat xs.length ≤ y := by
  have hall := isFinite_of_total hfin
  have hxfin := hall x (List.mem_of_head? hx)
  have hyfin := hall y (List.mem_of_getLast? hy)
  have hxnum := ((isFinite_iff x).1 hxfin).1
  have hynum := ((isFinite_iff y).1 hyfin).1
  obtain ⟨rest, rfl⟩ := List.head?_eq_some_iff.1 hx
  obtain ⟨hnum, hval⟩ := value_div_length (List.cons_ne_nil x rest) (by omega) hfin
  have hlength : (0 : ℚ) < (x :: rest).length := by
    exact_mod_cast List.length_pos_of_mem List.mem_cons_self
  have hlow : (x :: rest).length * value x ≤ value (total (x :: rest)) := by
    rw [List.length_cons, Nat.cast_add_one]
    rw [List.length_cons] at hlen
    exact mul_le_total h hlen hfin
  have hup : value (total (x :: rest)) ≤ (x :: rest).length * value y :=
    total_le_mul h hlen hfin fun z hz => ((le_iff _ _).1 (le_last_of_mem h hy hynum hz)).2.2
  constructor
  · refine (le_iff _ _).2 ⟨hxnum, hnum, ?_⟩
    rw [hval, ← round_value hxfin]
    exact round_mono ((le_div_iff₀' hlength).2 hlow)
  · refine (le_iff _ _).2 ⟨hnum, hynum, ?_⟩
    rw [hval, ← round_value hyfin]
    exact round_mono ((div_le_iff₀' hlength).2 hup)

end FuzzyControl.Double
