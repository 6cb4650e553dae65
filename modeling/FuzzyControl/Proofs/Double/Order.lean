import FuzzyControl.Proofs.Double.Value
import FuzzyControl.Connective
import FuzzyControl.Sample

/-!
# Doubles in order

What the smaller and the larger of two doubles are, and the doubles of the unit interval, in terms
of the numbers that they stand for.

* `value_greatest`, `value_least`: among numbers they are the maximum and the minimum;
* `mem_of_greatest?`, `le_of_greatest?`: the greatest of a list of numbers is one of them, and none
  of them is above it;
* `least?_of_ascending`, `greatest?_of_ascending`: in an ascending list they are the ends;
* `InUnit`: the memberships; they are kept by `least` and `greatest`.
-/

namespace FuzzyControl.Double

/-! ## 1. The smaller and the larger of two -/

theorem beq_self {x : Float} (h : x.isNaN = false) : (x == x) = true :=
  (beq_iff x x).2 ⟨h, h, rfl⟩

theorem beq_symm {x y : Float} (h : (x == y) = true) : (y == x) = true := by
  obtain ⟨hx, hy, he⟩ := (beq_iff x y).1 h
  exact (beq_iff y x).2 ⟨hy, hx, he.symm⟩

theorem beq_trans {x y z : Float} (h : (x == y) = true) (h' : (y == z) = true) :
    (x == z) = true := by
  obtain ⟨hx, -, he⟩ := (beq_iff x y).1 h
  obtain ⟨-, hz, he'⟩ := (beq_iff y z).1 h'
  exact (beq_iff x z).2 ⟨hx, hz, he.trans he'⟩

/-- Numbers are ordered one way or the other. -/
theorem lt_of_not_le {x y : Float} (hx : x.isNaN = false) (hy : y.isNaN = false) (h : ¬ x ≤ y) :
    y < x :=
  (lt_iff y x).2 ⟨hy, hx, not_le.1 fun hle => h ((le_iff x y).2 ⟨hx, hy, hle⟩)⟩

theorem le_of_not_lt {x y : Float} (hx : x.isNaN = false) (hy : y.isNaN = false) (h : ¬ x < y) :
    y ≤ x :=
  (le_iff y x).2 ⟨hy, hx, not_lt.1 fun hlt => h ((lt_iff x y).2 ⟨hx, hy, hlt⟩)⟩

theorem le_of_lt {x y : Float} (h : x < y) : x ≤ y := (le_iff_lt_or_beq x y).2 (.inl h)

theorem le_of_beq {x y : Float} (h : (x == y) = true) : x ≤ y := (le_iff_lt_or_beq x y).2 (.inr h)

theorem lt_trans {x y z : Float} (hxy : x < y) (hyz : y < z) : x < z := by
  rw [lt_iff] at hxy hyz ⊢
  exact ⟨hxy.1, hyz.2.1, hxy.2.2.trans hyz.2.2⟩

theorem le_trans {x y z : Float} (hxy : x ≤ y) (hyz : y ≤ z) : x ≤ z := by
  rw [le_iff] at hxy hyz ⊢
  exact ⟨hxy.1, hyz.2.1, hxy.2.2.trans hyz.2.2⟩

theorem lt_of_le_of_lt {x y z : Float} (hxy : x ≤ y) (hyz : y < z) : x < z := by
  rw [le_iff] at hxy
  rw [lt_iff] at hyz ⊢
  exact ⟨hxy.1, hyz.2.1, hxy.2.2.trans_lt hyz.2.2⟩

theorem lt_of_lt_of_le {x y z : Float} (hxy : x < y) (hyz : y ≤ z) : x < z := by
  rw [lt_iff] at hxy ⊢
  rw [le_iff] at hyz
  exact ⟨hxy.1, hyz.2.1, hxy.2.2.trans_le hyz.2.2⟩

theorem le_refl {x : Float} (h : x.isNaN = false) : x ≤ x := (le_iff x x).2 ⟨h, h, le_rfl⟩

/-- Two numbers that are each at least the other are equal. -/
theorem beq_of_le_of_le {x y : Float} (hxy : x ≤ y) (hyx : y ≤ x) : (x == y) = true := by
  rw [le_iff] at hxy hyx
  exact (beq_iff x y).2 ⟨hxy.1, hxy.2.1, le_antisymm hxy.2.2 hyx.2.2⟩

theorem lt_of_beq_of_lt {x y z : Float} (hxy : (x == y) = true) (hxz : x < z) : y < z := by
  rw [beq_iff] at hxy
  rw [lt_iff] at hxz ⊢
  exact ⟨hxy.2.1, hxz.2.1, hxy.2.2 ▸ hxz.2.2⟩

theorem not_lt_of_le {x y : Float} (h : x ≤ y) : ¬ y < x := fun hlt =>
  absurd ((lt_iff y x).1 hlt).2.2 (not_lt.2 ((le_iff x y).1 h).2.2)

theorem not_le_of_isNaN_left {x y : Float} (h : x.isNaN = true) : ¬ x ≤ y := by
  rw [le_iff, h]
  exact fun hle => nomatch hle.1

theorem not_le_of_isNaN_right {x y : Float} (h : y.isNaN = true) : ¬ x ≤ y := by
  rw [le_iff, h]
  exact fun hle => nomatch hle.2.1

/-- Of a number and one that is at least as large, the second is larger iff they differ. -/
theorem lt_iff_beq_eq_false {x y : Float} (h : x ≤ y) : x < y ↔ (x == y) = false := by
  rw [Bool.eq_false_iff]
  constructor
  · intro hlt hbeq
    exact not_lt_of_le (le_of_beq (beq_symm hbeq)) hlt
  · exact ((le_iff_lt_or_beq x y).1 h).resolve_right

theorem greatest_def (x y : Float) : greatest x y =
    if x.isNaN then y else if y.isNaN then x else if x < y then y else x := rfl

theorem least_def (x y : Float) : least x y =
    if x.isNaN then y else if y.isNaN then x else if y < x then y else x := rfl

theorem greatest_eq_or (x y : Float) : greatest x y = x ∨ greatest x y = y := by
  rw [greatest_def]
  split_ifs <;> simp

theorem least_eq_or (x y : Float) : least x y = x ∨ least x y = y := by
  rw [least_def]
  split_ifs <;> simp

theorem value_greatest {x y : Float} (hx : x.isNaN = false) (hy : y.isNaN = false) :
    value (greatest x y) = max (value x) (value y) := by
  rw [greatest_def, hx, hy, if_neg (by simp), if_neg (by simp)]
  by_cases h : value x < value y
  · rw [if_pos ((lt_iff x y).2 ⟨hx, hy, h⟩), max_eq_right h.le]
  · rw [if_neg fun hl => h ((lt_iff x y).1 hl).2.2, max_eq_left (not_lt.1 h)]

theorem value_least {x y : Float} (hx : x.isNaN = false) (hy : y.isNaN = false) :
    value (least x y) = min (value x) (value y) := by
  rw [least_def, hx, hy, if_neg (by simp), if_neg (by simp)]
  by_cases h : value y < value x
  · rw [if_pos ((lt_iff y x).2 ⟨hy, hx, h⟩), min_eq_right h.le]
  · rw [if_neg fun hl => h ((lt_iff y x).1 hl).2.2, min_eq_left (not_lt.1 h)]

theorem isNaN_greatest {x y : Float} (hx : x.isNaN = false) (hy : y.isNaN = false) :
    (greatest x y).isNaN = false := by
  rcases greatest_eq_or x y with h | h <;> rw [h] <;> assumption

theorem isNaN_least {x y : Float} (hx : x.isNaN = false) (hy : y.isNaN = false) :
    (least x y).isNaN = false := by
  rcases least_eq_or x y with h | h <;> rw [h] <;> assumption

/-- The smaller of anything and a number is a number. -/
theorem isNaN_least_right (w : Float) {m : Float} (hm : m.isNaN = false) :
    (least w m).isNaN = false := by
  rw [least_def]
  split_ifs <;> simp_all

/-- With a larger first operand the smaller of two is not less. -/
theorem least_le_least {w w' m : Float} (hw : w ≤ w') (hm : m.isNaN = false) :
    least w m ≤ least w' m := by
  obtain ⟨hnum, hnum', hle⟩ := (le_iff w w').1 hw
  refine (le_iff _ _).2 ⟨isNaN_least_right w hm, isNaN_least_right w' hm, ?_⟩
  rw [value_least hnum hm, value_least hnum' hm]
  exact min_le_min_right _ hle

/-! ## 2. The greatest of a list -/

/-- A choice between two, made along a list, ends at one of its elements. -/
theorem mem_of_foldl {f : Float → Float → Float} (hf : ∀ x y, f x y = x ∨ f x y = y)
    (xs : List Float) (x : Float) : xs.foldl f x ∈ x :: xs := by
  induction xs generalizing x with
  | nil => exact List.mem_cons_self
  | cons y ys ih =>
    rcases List.mem_cons.1 (ih (f x y)) with h | h
    · rcases hf x y with hxy | hxy
      · exact List.mem_cons.2 (Or.inl (h.trans hxy))
      · exact List.mem_cons_of_mem _ (List.mem_cons.2 (Or.inl (h.trans hxy)))
    · exact List.mem_cons_of_mem _ (List.mem_cons_of_mem _ h)

/-- No number of a list is above the greatest. -/
theorem value_le_foldl_greatest {xs : List Float} {x : Float} (hx : x.isNaN = false)
    (h : ∀ y ∈ xs, y.isNaN = false) :
    ∀ y ∈ x :: xs, value y ≤ value (xs.foldl greatest x) := by
  induction xs generalizing x with
  | nil => simp
  | cons z zs ih =>
    have hz := h z List.mem_cons_self
    have hle := ih (isNaN_greatest hx hz) fun y hy => h y (List.mem_cons_of_mem _ hy)
    have hfirst := hle _ List.mem_cons_self
    rw [value_greatest hx hz] at hfirst
    intro y hy
    rcases List.mem_cons.1 hy with rfl | hy
    · exact (le_max_left _ _).trans hfirst
    · rcases List.mem_cons.1 hy with rfl | hy
      · exact (le_max_right _ _).trans hfirst
      · exact hle y (List.mem_cons_of_mem _ hy)

theorem mem_of_greatest? {xs : List Float} {m : Float} (h : greatest? xs = some m) : m ∈ xs := by
  cases xs with
  | nil => cases h
  | cons x xs =>
    cases h
    exact mem_of_foldl greatest_eq_or xs x

theorem mem_of_least? {xs : List Float} {m : Float} (h : least? xs = some m) : m ∈ xs := by
  cases xs with
  | nil => cases h
  | cons x xs =>
    cases h
    exact mem_of_foldl least_eq_or xs x

theorem le_of_greatest? {xs : List Float} {m : Float} (hxs : ∀ x ∈ xs, x.isNaN = false)
    (h : greatest? xs = some m) : ∀ x ∈ xs, x ≤ m := by
  cases xs with
  | nil => cases h
  | cons y ys =>
    cases h
    intro x hx
    exact (le_iff _ _).2 ⟨hxs x hx, hxs _ (mem_of_foldl greatest_eq_or ys y),
      value_le_foldl_greatest (hxs y List.mem_cons_self)
        (fun z hz => hxs z (List.mem_cons_of_mem _ hz)) x hx⟩

/-- **The entries equal to the greatest are those that none exceeds.** -/
theorem beq_greatest?_iff {xs : List Float} {maximum x : Float}
    (hnum : ∀ y ∈ xs, y.isNaN = false) (h : greatest? xs = some maximum) (hx : x ∈ xs) :
    (x == maximum) = true ↔ ∀ y ∈ xs, y ≤ x := by
  have hle := le_of_greatest? hnum h
  constructor
  · intro hbeq y hy
    exact le_trans (hle y hy) (le_of_beq (beq_symm hbeq))
  · intro hpeak
    exact beq_of_le_of_le (hle x hx) (hpeak maximum (mem_of_greatest? h))

/-! ## 3. Ascending lists -/

section Ascending

variable {xs : List Float} {x y : Float}

/-- The least of an ascending list is its first. -/
theorem least?_of_ascending (h : xs.Pairwise (· < ·)) : least? xs = xs.head? := by
  cases xs with
  | nil => rfl
  | cons x xs =>
    have hfirst : ∀ ys : List Float, (∀ y ∈ ys, x < y) → ys.foldl least x = x := by
      intro ys hys
      induction ys with
      | nil => rfl
      | cons y ys ih =>
        have hxy := hys y List.mem_cons_self
        obtain ⟨hx, hy, -⟩ := (lt_iff x y).1 hxy
        have hleast : least x y = x := by
          rw [least_def, hx, hy, if_neg (by simp), if_neg (by simp),
            if_neg (not_lt_of_le (le_of_lt hxy))]
        rw [List.foldl_cons, hleast]
        exact ih fun z hz => hys z (List.mem_cons_of_mem _ hz)
    exact congrArg some (hfirst xs (List.pairwise_cons.1 h).1)

/-- The greatest of an ascending list is its last. -/
theorem greatest?_of_ascending (h : xs.Pairwise (· < ·)) : greatest? xs = xs.getLast? := by
  cases xs with
  | nil => rfl
  | cons x xs =>
    induction xs generalizing x with
    | nil => rfl
    | cons y ys ih =>
      obtain ⟨hlt, hrest⟩ := List.pairwise_cons.1 h
      have hxy := hlt y List.mem_cons_self
      obtain ⟨hx, hy, -⟩ := (lt_iff x y).1 hxy
      have hgreatest : greatest x y = y := by
        rw [greatest_def, hx, hy, if_neg (by simp), if_neg (by simp), if_pos hxy]
      rw [List.getLast?_cons_cons, ← ih y hrest]
      show some ((y :: ys).foldl greatest x) = some (ys.foldl greatest y)
      rw [List.foldl_cons, hgreatest]

theorem head_le_of_mem (h : xs.Pairwise (· < ·)) (hx : xs.head? = some x) (hnum : x.isNaN = false)
    (hy : y ∈ xs) : x ≤ y := by
  obtain ⟨rest, rfl⟩ := List.head?_eq_some_iff.1 hx
  rcases List.mem_cons.1 hy with rfl | hy
  · exact le_refl hnum
  · exact le_of_lt ((List.pairwise_cons.1 h).1 y hy)

theorem le_last_of_mem (h : xs.Pairwise (· < ·)) (hy : xs.getLast? = some y)
    (hnum : y.isNaN = false) (hx : x ∈ xs) : x ≤ y := by
  obtain ⟨rest, rfl⟩ := List.getLast?_eq_some_iff.1 hy
  rcases List.mem_append.1 hx with hx | hx
  · exact le_of_lt ((List.pairwise_append.1 h).2.2 x hx y List.mem_cons_self)
  · rw [List.mem_singleton.1 hx]
    exact le_refl hnum

/-- The first and the last of an ascending list of numbers are equal iff there is one entry. -/
theorem head_beq_last_iff (h : xs.Pairwise (· < ·)) (hx : xs.head? = some x)
    (hy : xs.getLast? = some y) (hnum : x.isNaN = false) : (x == y) = true ↔ xs.length = 1 := by
  match xs with
  | [] => cases hx
  | [z] =>
    cases hx
    cases hy
    exact iff_of_true (beq_self hnum) rfl
  | z :: w :: rest =>
    cases hx
    rw [List.getLast?_cons_cons] at hy
    have hlt := (List.pairwise_cons.1 h).1 y (List.mem_of_getLast? hy)
    refine iff_of_false ?_ (by simp)
    rw [Bool.not_eq_true]
    exact (lt_iff_beq_eq_false (le_of_lt hlt)).1 hlt

end Ascending

/-! ## 4. The unit interval -/

/-- A double of the unit interval. -/
def InUnit (m : Float) : Prop := 0 ≤ m ∧ m ≤ 1

theorem value_zero : value 0 = 0 := rfl

theorem value_one : value 1 = 1 := by
  show factor .positive * (((2 ^ 52 : Nat) : ℚ) * 2 ^ (-52 : ℤ)) = 1
  norm_num [factor]

theorem inUnit_iff (m : Float) :
    InUnit m ↔ m.isNaN = false ∧ 0 ≤ value m ∧ value m ≤ 1 := by
  have h0 : (0 : Float).isNaN = false := rfl
  have h1 : (1 : Float).isNaN = false := rfl
  rw [InUnit, le_iff, le_iff, value_zero, value_one]
  tauto

theorem InUnit.isNaN {m : Float} (h : InUnit m) : m.isNaN = false := ((inUnit_iff m).1 h).1

theorem inUnit_zero : InUnit 0 := by
  rw [inUnit_iff, value_zero]
  exact ⟨rfl, le_rfl, zero_le_one⟩

theorem inUnit_one : InUnit 1 := by
  rw [inUnit_iff, value_one]
  exact ⟨rfl, zero_le_one, le_rfl⟩

theorem InUnit.greatest {x y : Float} (hx : InUnit x) (hy : InUnit y) :
    InUnit (FuzzyControl.greatest x y) := by
  rcases greatest_eq_or x y with h | h <;> rw [h] <;> assumption

theorem InUnit.least {x y : Float} (hx : InUnit x) (hy : InUnit y) :
    InUnit (FuzzyControl.least x y) := by
  rcases least_eq_or x y with h | h <;> rw [h] <;> assumption

end FuzzyControl.Double
