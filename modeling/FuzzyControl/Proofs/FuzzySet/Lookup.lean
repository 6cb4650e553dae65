import FuzzyControl.Proofs.FuzzySet.Validity
import FuzzyControl.FuzzySet.Lookup

/-!
# When a value has a membership

Halving finds an equal value if there is one and the values ascend. Of two values that are numbers
one is nearer or both are equally near, so any list of numbers has a nearest one to a finite value.
And between the first and the last of the samples there are two neighbours around every number.

* `mem_of_membershipAt`: what is looked up without a line is a membership of the set;
* `Best`: the first of the nearest places, said without the walk along the values;
  `best_walk`: the walk finds it;
* `exists_of_bisectWithin`, `exists_nearestIndex?`, `exists_interpolate?`: the three ways to look
  up;
* `exists_reached`, `interpolate?_of_between`: where the samples go past a value, and which line is
  taken there; `interpolate?_eq_none_iff`: when none is;
* `Ascends.exact_eq_ok_iff`: the exact look-up in samples whose values ascend;
* `InReach`: what a value has to fulfil for each of them; `InReach.exists_membershipAt?`.
-/

namespace FuzzyControl

open Double

/-! ## 1. Halving -/

theorem mem_of_bisectWithin {α : Type} {compare : α → Ordering} {steps : Nat} {xs : List α} {a : α}
    (h : bisectWithin compare steps xs = some a) : a ∈ xs := by
  fun_induction bisectWithin compare steps xs with
  | case1 => cases h
  | case2 steps b heq =>
    cases h
    exact List.mem_cons_self
  | case3 => cases h
  | case4 => cases h
  | case5 => cases h
  | case6 steps xs h0 h1 half b rest hdrop hgt ih => exact List.mem_of_mem_take (ih h)
  | case7 steps xs h0 h1 half b rest hdrop hle ih =>
    have hmem := ih h
    rw [← hdrop] at hmem
    exact List.mem_of_mem_drop hmem

/-- What halving finds compares equal. -/
theorem compare_of_bisectWithin {α : Type} {compare : α → Ordering} {steps : Nat} {xs : List α}
    {a : α} (h : bisectWithin compare steps xs = some a) : compare a = .eq := by
  fun_induction bisectWithin compare steps xs with
  | case1 => cases h
  | case2 steps b heq =>
    cases h
    exact heq
  | case3 => cases h
  | case4 => cases h
  | case5 => cases h
  | case6 steps xs h0 h1 half b rest hdrop hgt ih => exact ih h
  | case7 steps xs h0 h1 half b rest hdrop hle ih => exact ih h

/-- Behind an element above the target all are above it, and before one below it all are below. -/
def Ordered {α : Type} (compare : α → Ordering) (xs : List α) : Prop :=
  xs.Pairwise fun a b => (compare a = .gt → compare b = .gt) ∧ (compare b = .lt → compare a = .lt)

theorem two_le_length {α : Type} {xs : List α} (h0 : xs = [] → False) (h1 : ∀ a, xs = [a] → False) :
    2 ≤ xs.length := by
  match xs with
  | [] => exact absurd rfl h0
  | [a] => exact absurd rfl (h1 a)
  | a :: b :: rest => simp

/-- **Halving finds an element that compares equal**, if there is one. -/
theorem exists_of_bisectWithin {α : Type} {compare : α → Ordering} {steps : Nat} {xs : List α}
    (hordered : Ordered compare xs) (hsteps : xs.length ≤ steps + 1)
    (h : ∃ a ∈ xs, compare a = .eq) : ∃ a, bisectWithin compare steps xs = some a := by
  obtain ⟨a, ha, heq⟩ := h
  fun_induction bisectWithin compare steps xs generalizing a with
  | case1 => simp at ha
  | case2 steps b hb => exact ⟨b, rfl⟩
  | case3 steps b hb =>
    obtain rfl := List.mem_singleton.1 ha
    exact absurd heq hb
  | case4 xs h0 h1 =>
    have := two_le_length h0 h1
    omega
  | case5 steps xs h0 h1 half hdrop =>
    have := two_le_length h0 h1
    have := List.drop_eq_nil_iff.1 hdrop
    omega
  | case6 steps xs h0 h1 half b rest hdrop hgt ih =>
    have hlen := two_le_length h0 h1
    have hsub : (b :: rest).Sublist xs := hdrop ▸ List.drop_sublist half xs
    -- what is cut off lies behind `b`, so all of it is above the target
    have hmem : a ∈ xs.take (xs.length - half) := by
      rw [← List.take_append_drop (xs.length - half) xs] at ha
      refine (List.mem_append.1 ha).resolve_right fun hcut => ?_
      have hbehind : a ∈ b :: rest := by
        rw [← hdrop]
        exact (List.drop_sublist_drop_left xs (by omega)).subset hcut
      rcases List.mem_cons.1 hbehind with rfl | hrest
      · rw [heq] at hgt
        cases hgt
      · rw [((List.pairwise_cons.1 (hordered.sublist hsub)).1 a hrest).1 hgt] at heq
        cases heq
    exact ih (hordered.sublist (List.take_sublist _ _)) (by simp; omega) a hmem heq
  | case7 steps xs h0 h1 half b rest hdrop hle ih =>
    have hlen := two_le_length h0 h1
    have hshort : (b :: rest).length ≤ steps + 1 := by
      rw [← hdrop, List.length_drop]
      omega
    rw [← List.take_append_drop half xs, hdrop] at ha hordered
    rcases List.mem_append.1 ha with hbefore | hbehind
    · -- the target is not above `b`, and `b` is not below it, or all before `b` were
      have hb : compare b = .eq := by
        have hpair := (List.pairwise_append.1 hordered).2.2 a hbefore b List.mem_cons_self
        cases hcompare : compare b with
        | eq => rfl
        | gt => exact absurd hcompare hle
        | lt =>
          rw [hpair.2 hcompare] at heq
          cases heq
      exact ih (List.pairwise_append.1 hordered).2.1 hshort b List.mem_cons_self hb
    · exact ih (List.pairwise_append.1 hordered).2.1 hshort a hbehind heq

theorem standing_eq_gt_iff {x value : Float} : standing x value = .gt ↔ x < value := by
  unfold standing
  split_ifs with hbeq hlt
  · exact iff_of_false nofun (not_lt_of_le (le_of_beq hbeq))
  · exact iff_of_true rfl hlt
  · exact iff_of_false nofun hlt

theorem standing_eq_eq_iff {x value : Float} : standing x value = .eq ↔ (value == x) = true := by
  unfold standing
  split_ifs with hbeq hlt
  · exact iff_of_true rfl hbeq
  · exact iff_of_false nofun hbeq
  · exact iff_of_false nofun hbeq

theorem standing_eq_lt_iff {x value : Float} :
    standing x value = .lt ↔ ¬ (value == x) = true ∧ ¬ x < value := by
  unfold standing
  split_ifs with hbeq hlt
  · exact iff_of_false nofun fun h => h.1 hbeq
  · exact iff_of_false nofun fun h => h.2 hlt
  · exact iff_of_true rfl ⟨hbeq, hlt⟩

/-! ## 2. The nearest value -/

/-- The best place in a list of values: the first of the nearest ones, with its distance. It has a
distance, none before it is at most as far, and none behind it is nearer. -/
inductive Best (x : Float) : List Float → Option (Nat × Float) → Prop where
  | none {values : List Float} (h : ∀ y ∈ values, (y - x).abs.isNaN = true) : Best x values none
  | some {before after : List Float} {y : Float} (hnumber : (y - x).abs.isNaN = false)
      (hbefore : ∀ z ∈ before, ¬ (z - x).abs ≤ (y - x).abs)
      (hafter : ∀ z ∈ after, ¬ (z - x).abs < (y - x).abs) :
      Best x (before ++ y :: after) (some (before.length, (y - x).abs))

/-- **One step of the walk** keeps the best place. -/
theorem Best.nearer {x : Float} {seen : List Float} {best : Option (Nat × Float)}
    (h : Best x seen best) (y : Float) :
    Best x (seen ++ [y]) (nearer best seen.length (y - x).abs) := by
  unfold FuzzyControl.nearer
  cases hnumber : (y - x).abs.isNaN with
  | true =>
    have hfar : ∀ d, ¬ (y - x).abs < d := by
      intro d hlt
      rw [((lt_iff _ _).1 hlt).1] at hnumber
      cases hnumber
    rw [if_pos rfl]
    cases h with
    | none h => exact .none (List.forall_mem_append.2 ⟨h, List.forall_mem_singleton.2 hnumber⟩)
    | some hnumber' hbefore hafter =>
      rw [List.append_assoc, List.cons_append]
      exact .some hnumber' hbefore
        (List.forall_mem_append.2 ⟨hafter, List.forall_mem_singleton.2 (hfar _)⟩)
  | false =>
    rw [if_neg (by simp)]
    cases h with
    | none h =>
      refine .some hnumber (fun z hz hle => ?_) nofun
      have hz' := h z hz
      rw [((le_iff _ _).1 hle).1] at hz'
      cases hz'
    | @some before after y' hnumber' hbefore hafter =>
      show Best x _ (if (y' - x).abs ≤ (y - x).abs then _ else _)
      by_cases hle : (y' - x).abs ≤ (y - x).abs
      · rw [if_pos hle, List.append_assoc, List.cons_append]
        exact .some hnumber' hbefore (List.forall_mem_append.2
          ⟨hafter, List.forall_mem_singleton.2 (not_lt_of_le hle)⟩)
      · have hlt := lt_of_not_le hnumber' hnumber hle
        rw [if_neg hle]
        refine .some hnumber (fun z hz hz' => ?_) nofun
        rcases List.mem_append.1 hz with hz | hz
        · exact hbefore z hz (le_trans hz' (le_of_lt hlt))
        · rcases List.mem_cons.1 hz with rfl | hz
          · exact hle hz'
          · exact hafter z hz (lt_of_le_of_lt hz' hlt)

/-- A walk from the best place so far ends at the best place of all. -/
theorem best_nearestFrom {x : Float} (values : List Float) {seen : List Float}
    {best : Option (Nat × Float)} (h : Best x seen best) :
    Best x (seen ++ values) (nearestFrom x seen.length best values) := by
  induction values generalizing seen best with
  | nil =>
    rw [List.append_nil]
    exact h
  | cons y values ih =>
    have hnext := ih (h.nearer y)
    rw [List.append_assoc, List.length_append] at hnext
    exact hnext

/-- **The walk ends at the best place.** -/
theorem best_walk (x : Float) (values : List Float) : Best x values (nearestFrom x 0 none values) :=
  best_nearestFrom values (.none (List.forall_mem_nil _))

/-- **Among numbers, there is one nearest to a finite value.** -/
theorem exists_nearestIndex? {x : Float} (hx : x.isFinite = true) {values : List Float}
    (hvalues : ∀ y ∈ values, y.isNaN = false) (hne : values ≠ []) :
    ∃ i, nearestIndex? x values = some i ∧ i < values.length := by
  have hbest := best_walk x values
  unfold nearestIndex?
  rw [isNaN_of_isFinite hx]
  generalize nearestFrom x 0 none values = best at *
  cases hbest with
  | none hnone =>
    obtain ⟨y, hy⟩ := List.exists_mem_of_ne_nil values hne
    have hdistance := isNaN_sub (hvalues y hy) hx
    rw [← isNaN_abs, hnone y hy] at hdistance
    cases hdistance
  | some => exact ⟨_, rfl, by simp⟩

/-! ## 3. The line through the samples -/

/-- Whether a sample is below a value. -/
def Sample.isBelow (x : Float) (p : Sample) : Bool := p.value < x

theorem Sample.isBelow_iff {x : Float} {p : Sample} : p.isBelow x = true ↔ p.value < x :=
  decide_eq_true_iff

/-- Between a first sample below `x` and a last one that is not, there are two neighbours where `x`
is reached: up to the first of the two all samples are below it. -/
theorem exists_reached {x : Float} {samples : List Sample} {first last : Sample}
    (hx : x.isNaN = false) (hnumbers : ∀ p ∈ samples, p.value.isNaN = false)
    (hfirst : samples.head? = some first) (hbelow : first.value < x)
    (hlast : last ∈ samples) (hreached : x ≤ last.value) :
    ∃ before a b after, samples = before ++ a :: b :: after ∧
      (∀ p ∈ before ++ [a], p.value < x) ∧ x ≤ b.value := by
  have hsplit := List.takeWhile_append_dropWhile (p := Sample.isBelow x) (l := samples)
  have hfront : ∀ p ∈ samples.takeWhile (Sample.isBelow x), p.value < x :=
    fun p hp => Sample.isBelow_iff.1 (List.mem_takeWhile_imp hp)
  have hback := List.head?_dropWhile_not (Sample.isBelow x) samples
  generalize samples.takeWhile (Sample.isBelow x) = front at hsplit hfront
  generalize samples.dropWhile (Sample.isBelow x) = back at hsplit hback
  subst hsplit
  obtain ⟨before, a, rfl⟩ : ∃ before a, front = before ++ [a] := by
    refine (List.eq_nil_or_concat' front).resolve_left ?_
    rintro rfl
    change back.head? = some first at hfirst
    rw [hfirst] at hback
    exact of_decide_eq_false hback hbelow
  obtain ⟨b, after, rfl⟩ : ∃ b after, back = b :: after := by
    refine List.exists_cons_of_ne_nil ?_
    rintro rfl
    rw [List.append_nil] at hlast
    exact not_lt_of_le hreached (hfront last hlast)
  have hb : ¬ b.value < x := of_decide_eq_false hback
  exact ⟨before, a, b, after, by simp, hfront, le_of_not_lt (hnumbers b (by simp)) hx hb⟩

/-- If no sample up to the first of two neighbours has reached a value, and the second one has, the
line is that between the two. -/
theorem between?_append {x : Float} (before : List Sample) {a b : Sample} (after : List Sample)
    (hbefore : ∀ p ∈ before ++ [a], p.value < x) (hb : x ≤ b.value) :
    between? x (before ++ a :: b :: after) = some (lineAt x a b) := by
  induction before with
  | nil => exact if_pos ⟨le_of_lt (hbefore a List.mem_cons_self), hb⟩
  | cons p before ih =>
    have hrest := fun q hq => hbefore q (List.mem_cons_of_mem _ hq)
    have hskip : ∀ q rest, q.value < x → between? x (p :: q :: rest) = between? x (q :: rest) :=
      fun q rest hq => if_neg fun hle => not_lt_of_le hle.2 hq
    cases before with
    | nil => exact (hskip a _ (hrest a List.mem_cons_self)).trans (ih hrest)
    | cons q before => exact (hskip q _ (hrest q List.mem_cons_self)).trans (ih hrest)

theorem interpolate?_eq {x : Float} {samples : List Sample} {first last : Sample}
    (hfirst : samples.head? = some first) (hlast : samples.getLast? = some last) :
    interpolate? x samples = if x ≤ first.value then some first.membership
      else if last.value ≤ x then some last.membership
      else between? x samples := by
  unfold interpolate?
  rw [hfirst, hlast]

/-- Before the last sample, the line is that between the two neighbours where a value is reached. -/
theorem interpolate?_append {x : Float} (before : List Sample) {a b last : Sample}
    (after : List Sample) (hbefore : ∀ p ∈ before ++ [a], p.value < x) (hb : x ≤ b.value)
    (hlast : (before ++ a :: b :: after).getLast? = some last) (hbehind : ¬ last.value ≤ x) :
    interpolate? x (before ++ a :: b :: after) = some (lineAt x a b) := by
  obtain ⟨first, hfirst, hmem⟩ :
      ∃ p, (before ++ a :: b :: after).head? = some p ∧ p ∈ before ++ [a] := by
    cases before with
    | nil => exact ⟨a, rfl, List.mem_cons_self⟩
    | cons p before => exact ⟨p, rfl, List.mem_cons_self⟩
  have hfirstLt : ¬ x ≤ first.value := fun hle => not_lt_of_le hle (hbefore first hmem)
  rw [interpolate?_eq hfirst hlast, if_neg hfirstLt, if_neg hbehind]
  exact between?_append before after hbefore hb

/-- Behind the first sample and before the last one there are two neighbours where a value is
reached, and the line is that between them. -/
theorem interpolate?_of_between {x : Float} {samples : List Sample} {first last : Sample}
    (hx : x.isNaN = false) (hnumbers : ∀ p ∈ samples, p.value.isNaN = false)
    (hfirst : samples.head? = some first) (hlast : samples.getLast? = some last)
    (hbefore : ¬ x ≤ first.value) (hbehind : ¬ last.value ≤ x) :
    ∃ before a b after, samples = before ++ a :: b :: after ∧
      (∀ p ∈ before ++ [a], p.value < x) ∧ x ≤ b.value ∧
      interpolate? x samples = some (lineAt x a b) := by
  have hlastMem := List.mem_of_mem_getLast? hlast
  have hbelow : first.value < x :=
    lt_of_not_le hx (hnumbers first (List.mem_of_mem_head? hfirst)) hbefore
  have hreached : x ≤ last.value := le_of_lt (lt_of_not_le (hnumbers last hlastMem) hx hbehind)
  obtain ⟨before, a, b, after, rfl, ha, hb⟩ :=
    exists_reached hx hnumbers hfirst hbelow hlastMem hreached
  exact ⟨before, a, b, after, rfl, ha, hb, interpolate?_append before after ha hb hlast hbehind⟩

/-- **The line through samples at numbers goes over every number.** -/
theorem exists_interpolate? {x : Float} {samples : List Sample} (hx : x.isNaN = false)
    (hnumbers : ∀ p ∈ samples, p.value.isNaN = false) (hne : samples ≠ []) :
    ∃ m, interpolate? x samples = some m := by
  obtain ⟨first, rest, hrest⟩ := List.exists_cons_of_ne_nil hne
  have hfirst : samples.head? = some first := List.head?_eq_some_iff.2 ⟨rest, hrest⟩
  obtain ⟨last, hlast⟩ := Option.isSome_iff_exists.1 (List.getLast?_isSome.2 hne)
  by_cases hbefore : x ≤ first.value
  · exact ⟨_, (interpolate?_eq hfirst hlast).trans (if_pos hbefore)⟩
  · by_cases hbehind : last.value ≤ x
    · exact ⟨_, (interpolate?_eq hfirst hlast).trans ((if_neg hbefore).trans (if_pos hbehind))⟩
    · obtain ⟨_, _, _, _, -, -, -, hline⟩ :=
        interpolate?_of_between hx hnumbers hfirst hlast hbefore hbehind
      exact ⟨_, hline⟩

theorem between?_of_isNaN {x : Float} (hx : x.isNaN = true) (samples : List Sample) :
    between? x samples = none := by
  fun_induction between? x samples with
  | case1 a b rest h => exact absurd h.1 (not_le_of_isNaN_right hx)
  | case2 a b rest h ih => exact ih
  | case3 => rfl

/-- **The line goes over all numbers and nothing else.** -/
theorem interpolate?_eq_none_iff {x : Float} {samples : List Sample}
    (hnumbers : ∀ p ∈ samples, p.value.isNaN = false) :
    interpolate? x samples = none ↔ samples = [] ∨ x.isNaN = true := by
  constructor
  · intro hnone
    by_contra hnot
    obtain ⟨hne, hx⟩ := not_or.1 hnot
    obtain ⟨m, hm⟩ := exists_interpolate? (Bool.eq_false_iff.2 hx) hnumbers hne
    rw [hnone] at hm
    cases hm
  · intro hnone
    rcases hnone with rfl | hx
    · rfl
    · unfold interpolate?
      split
      · rw [if_neg (not_le_of_isNaN_left hx), if_neg (not_le_of_isNaN_right hx),
          between?_of_isNaN hx]
      · rfl

/-! ## 4. Memberships -/

namespace FuzzySet

theorem membershipAt_eq_ok_iff {s : FuzzySet} {x m : Float} {lookup : Lookup} :
    s.membershipAt x lookup = .ok m ↔ s.membershipAt? x lookup = some m := by
  unfold membershipAt
  cases s.membershipAt? x lookup <;> simp

theorem membershipAt_eq_error_iff {s : FuzzySet} {x : Float} {lookup : Lookup} {fault : Fault} :
    s.membershipAt x lookup = .error fault ↔
      s.membershipAt? x lookup = none ∧ fault = .offGrid s.name x := by
  unfold membershipAt
  cases s.membershipAt? x lookup <;> simp [eq_comm]

/-- What is looked up without a line between samples is a membership of the set. -/
theorem mem_of_membershipAt {s : FuzzySet} {x m : Float} {lookup : Lookup}
    (hlookup : lookup ≠ .interpolate) (h : s.membershipAt x lookup = .ok m) :
    m ∈ s.memberships := by
  have hsome := membershipAt_eq_ok_iff.1 h
  cases lookup with
  | exact =>
    obtain ⟨p, hp, rfl⟩ := Option.map_eq_some_iff.1 hsome
    exact List.mem_map_of_mem (mem_of_bisectWithin hp)
  | nearest =>
    obtain ⟨i, -, hi⟩ := Option.bind_eq_some_iff.1 hsome
    exact List.mem_of_getElem? hi
  | interpolate => exact absurd rfl hlookup

/-- The values of a set are numbers that strictly ascend. -/
structure Ascends (s : FuzzySet) : Prop where
  numbers : ∀ x ∈ s.grid, x.isNaN = false
  ascending : s.grid.Pairwise (· < ·)

theorem Valid.ascends {s : FuzzySet} (h : s.Valid) : s.Ascends :=
  ⟨((valid_iff s).1 h).numbers, ((valid_iff s).1 h).ascending⟩

/-- What a value has to fulfil to be looked up: it is on the grid, or there is a grid at all. -/
def InReach (s : FuzzySet) (x : Float) : Lookup → Prop
  | .exact => ∃ y ∈ s.grid, (y == x) = true
  | .nearest => s.samples ≠ []
  | .interpolate => s.samples ≠ []

theorem Ascends.ordered {s : FuzzySet} (h : s.Ascends) (x : Float) :
    Ordered (fun p => standing x p.value) s.samples := by
  refine (List.pairwise_map.1 h.ascending).imp fun {p q} hpq => ⟨fun hp => ?_, fun hq => ?_⟩
  · exact standing_eq_gt_iff.2 (lt_trans (standing_eq_gt_iff.1 hp) hpq)
  · rw [standing_eq_lt_iff] at hq ⊢
    exact ⟨fun hbeq => hq.2 (lt_of_beq_of_lt hbeq hpq), fun hlt => hq.2 (lt_trans hlt hpq)⟩

/-- **A finite value in reach has a membership**, whichever way it is looked up. -/
theorem InReach.exists_membershipAt? {s : FuzzySet} {x : Float} {lookup : Lookup} (h : s.Ascends)
    (hx : x.isFinite = true) (hreach : s.InReach x lookup) :
    ∃ m, s.membershipAt? x lookup = some m := by
  cases lookup with
  | exact =>
    obtain ⟨y, hy, heq⟩ := hreach
    obtain ⟨p, hp, rfl⟩ := List.mem_map.1 hy
    have hfound : standing x p.value = .eq := if_pos heq
    obtain ⟨q, hq⟩ := exists_of_bisectWithin (h.ordered x) (Nat.le_succ _) ⟨p, hp, hfound⟩
    exact ⟨q.membership, Option.map_eq_some_iff.2 ⟨q, hq, rfl⟩⟩
  | nearest =>
    have hne : s.grid ≠ [] := fun hnil => hreach (List.map_eq_nil_iff.1 hnil)
    obtain ⟨i, hi, hlt⟩ := exists_nearestIndex? hx h.numbers hne
    have hlt' : i < s.memberships.length := by simpa using hlt
    exact ⟨s.memberships[i], Option.bind_eq_some_iff.2 ⟨i, hi, List.getElem?_eq_getElem hlt'⟩⟩
  | interpolate =>
    exact exists_interpolate? (isNaN_of_isFinite hx)
      (fun p hp => h.numbers _ (List.mem_map_of_mem hp)) hreach

/-! ## 5. Samples in order -/

section Samples

variable {s : FuzzySet} {x : Float} {p q first last : Sample} {before after : List Sample}

theorem Ascends.isNaN_value (h : s.Ascends) (hp : p ∈ s.samples) : p.value.isNaN = false :=
  h.numbers _ (List.mem_map_of_mem hp)

/-- Wherever the samples are parted, those on the left are below those on the right. -/
theorem Ascends.lt_of_append (h : s.Ascends) (hs : s.samples = before ++ after) (hp : p ∈ before)
    (hq : q ∈ after) : p.value < q.value := by
  have hascending := List.pairwise_map.1 h.ascending
  rw [hs] at hascending
  exact (List.pairwise_append.1 hascending).2.2 p hp q hq

/-- Samples at equal values are the same. -/
theorem Ascends.eq_of_beq (h : s.Ascends) (hp : p ∈ s.samples) (hq : q ∈ s.samples)
    (hbeq : (p.value == q.value) = true) : p = q := by
  have hsymm : Std.Symm fun p q : Sample => (p.value == q.value) = true → p = q :=
    ⟨fun p q hpq hqp => (hpq (beq_symm hqp)).symm⟩
  have hpairwise : s.samples.Pairwise fun p q => (p.value == q.value) = true → p = q := by
    refine (List.pairwise_map.1 h.ascending).imp fun {p q} hlt hbeq => ?_
    exact absurd hlt (not_lt_of_le (le_of_beq (beq_symm hbeq)))
  exact hpairwise.forall_of_forall (fun _ _ _ => rfl) hp hq hbeq

/-- **The exact look-up gives the membership of the sample at a value**, if there is one. -/
theorem Ascends.exact_eq_ok_iff {m : Float} (h : s.Ascends) : s.membershipAt x .exact = .ok m ↔
    ∃ p ∈ s.samples, (p.value == x) = true ∧ p.membership = m := by
  rw [membershipAt_eq_ok_iff]
  constructor
  · intro hm
    obtain ⟨p, hp, rfl⟩ := Option.map_eq_some_iff.1 hm
    have hstanding := compare_of_bisectWithin hp
    exact ⟨p, mem_of_bisectWithin hp, standing_eq_eq_iff.1 hstanding, rfl⟩
  · intro hm
    obtain ⟨p, hp, hbeq, rfl⟩ := hm
    have hfound : standing x p.value = .eq := standing_eq_eq_iff.2 hbeq
    obtain ⟨q, hq⟩ := exists_of_bisectWithin (h.ordered x) (Nat.le_succ _) ⟨p, hp, hfound⟩
    have hstanding := compare_of_bisectWithin hq
    have hsame := beq_trans (standing_eq_eq_iff.1 hstanding) (beq_symm hbeq)
    obtain rfl := h.eq_of_beq (mem_of_bisectWithin hq) hp hsame
    exact Option.map_eq_some_iff.2 ⟨q, hq, rfl⟩

/-- At the value of a sample, the exact look-up gives its membership. -/
theorem Ascends.exact_of_mem (h : s.Ascends) (hp : p ∈ s.samples) :
    s.membershipAt p.value .exact = .ok p.membership :=
  h.exact_eq_ok_iff.2 ⟨p, hp, beq_self (h.isNaN_value hp), rfl⟩

theorem interpolate_of_le (hfirst : s.samples.head? = some first) (hx : x ≤ first.value) :
    s.membershipAt x .interpolate = .ok first.membership := by
  have hne : s.samples ≠ [] := List.ne_nil_of_mem (List.mem_of_mem_head? hfirst)
  obtain ⟨last, hlast⟩ := Option.isSome_iff_exists.1 (List.getLast?_isSome.2 hne)
  exact membershipAt_eq_ok_iff.2 ((interpolate?_eq hfirst hlast).trans (if_pos hx))

theorem Ascends.interpolate_of_last_le (h : s.Ascends) (hs : s.samples = before ++ [last])
    (hx : last.value ≤ x) : s.membershipAt x .interpolate = .ok last.membership := by
  have hlast : s.samples.getLast? = some last := List.getLast?_eq_some_iff.2 ⟨before, hs⟩
  refine membershipAt_eq_ok_iff.2 ?_
  cases before with
  | nil =>
    have hfirst : s.samples.head? = some last := by rw [hs]; rfl
    refine (interpolate?_eq hfirst hlast).trans ?_
    rw [if_pos hx, ite_self]
  | cons first before =>
    have hfirst : s.samples.head? = some first := by rw [hs]; rfl
    have hlt := h.lt_of_append hs List.mem_cons_self List.mem_cons_self
    refine (interpolate?_eq hfirst hlast).trans ?_
    rw [if_neg fun hle => not_lt_of_le (le_trans hx hle) hlt, if_pos hx]

end Samples

end FuzzySet

end FuzzyControl
