import FuzzyControl.Proofs.Scalar.Order

/-!
# Memberships joined

A list of memberships is joined from left to right, by the smaller or the larger of two, and what is
not a number gives way. The order of the list decides nothing but the sign of a zero: whatever it is,
the list is joined into one of its members that no number of the list goes beyond.

* `Leads`: the order that a connective looks for; `choose`: the one of two that it takes;
* `Joined`: what a list is joined into, said without a walk along it; `joined_join`: the walk ends
  there;
* `Joined.append`: what two lists are joined into, joined; `Joined.alike`: there is only one, up to
  the sign of a zero;
* `Joins`, `joins_both_widths`: how lists of any scalars are joined, and that doubles and scalars of
  single width are.
-/

namespace FuzzyControl.Connective

open Scalar

/-! ## 1. The one of two -/

/-- The one of two memberships that a connective takes. -/
def choose {α : Type} [Scalar α] : Connective → α → α → α
  | .and => least
  | .or => greatest

section Choice

variable {α : Type} [Scalar α] {c : Connective} {x y : α}

theorem join_cons (c : Connective) (x : α) (xs : List α) :
    c.join (x :: xs) = some (xs.foldl c.choose x) := by cases c <;> rfl

theorem choose_of_isNaN_left (hx : isNaN x = true) : c.choose x y = y := by
  cases c <;> exact if_pos hx

theorem choose_of_isNaN_right (hx : isNaN x = false) (hy : isNaN y = true) : c.choose x y = x := by
  have hx' : ¬ isNaN x = true := by simp [hx]
  cases c <;> exact (if_neg hx').trans (if_pos hy)

end Choice

variable {α L : Type} [Scalar α] [LE α] [LinearOrder L] {rank : α → L} {c : Connective}
  {x y z m m' k : α} {xs ys : List α}

/-- Under `AND` the lesser one leads, under `OR` the greater one. -/
def Leads : Connective → α → α → Prop
  | .and, x, y => x ≤ y
  | .or, x, y => y ≤ x

theorem Leads.isNaN (h : Ranked rank) (hxy : c.Leads x y) :
    isNaN x = false ∧ isNaN y = false := by
  cases c with
  | and => exact ⟨((h.le_iff x y).1 hxy).1, ((h.le_iff x y).1 hxy).2.1⟩
  | or => exact ⟨((h.le_iff y x).1 hxy).2.1, ((h.le_iff y x).1 hxy).1⟩

theorem leads_refl (h : Ranked rank) (hx : isNaN x = false) : c.Leads x x := by
  cases c <;> exact h.le_refl hx

theorem Leads.trans (h : Ranked rank) (hxy : c.Leads x y) (hyz : c.Leads y z) : c.Leads x z := by
  cases c with
  | and => exact h.le_trans hxy hyz
  | or => exact h.le_trans hyz hxy

theorem Leads.beq (h : Ranked rank) (hxy : c.Leads x y) (hyx : c.Leads y x) : (x == y) = true := by
  cases c with
  | and => exact h.beq_of_le_of_le hxy hyx
  | or => exact h.beq_of_le_of_le hyx hxy

/-- Of two numbers, one is taken that leads the other. -/
theorem choose_of_numbers (h : Ranked rank) (hx : isNaN x = false) (hy : isNaN y = false) :
    c.choose x y = x ∧ c.Leads x y ∨ c.choose x y = y ∧ c.Leads y x := by
  have hx' : ¬ isNaN x = true := by simp [hx]
  have hy' : ¬ isNaN y = true := by simp [hy]
  cases c with
  | and =>
    have hleast : choose .and x y = if y < x then y else x := (if_neg hx').trans (if_neg hy')
    rw [hleast]
    by_cases hlt : y < x
    · exact .inr ⟨if_pos hlt, h.le_of_lt hlt⟩
    · exact .inl ⟨if_neg hlt, h.le_of_not_lt hy hx hlt⟩
  | or =>
    have hgreatest : choose .or x y = if x < y then y else x := (if_neg hx').trans (if_neg hy')
    rw [hgreatest]
    by_cases hlt : x < y
    · exact .inr ⟨if_pos hlt, h.le_of_lt hlt⟩
    · exact .inl ⟨if_neg hlt, h.le_of_not_lt hx hy hlt⟩

/-! ## 2. What a list is joined into -/

/-- What a list is joined into: one of its members, which leads every number of the list. So it is a
number itself if the list has one. -/
structure Joined (c : Connective) (xs : List α) (m : α) : Prop where
  mem : m ∈ xs
  leads : ∀ x ∈ xs, isNaN x = false → c.Leads m x

theorem joined_singleton (h : Ranked rank) (x : α) : Joined c [x] x where
  mem := List.mem_cons_self
  leads := List.forall_mem_singleton.2 (leads_refl h)

theorem Joined.of_pair (hm : m = x ∨ m = y) (hx : isNaN x = false → c.Leads m x)
    (hy : isNaN y = false → c.Leads m y) : Joined c [x, y] m where
  mem := List.mem_pair.2 hm
  leads := List.forall_mem_cons.2 ⟨hx, List.forall_mem_singleton.2 hy⟩

theorem joined_pair (h : Ranked rank) (x y : α) : Joined c [x, y] (c.choose x y) := by
  cases hx : isNaN x with
  | true =>
    rw [choose_of_isNaN_left hx]
    exact .of_pair (.inr rfl) (fun hnum => by simp [hx] at hnum) (leads_refl h)
  | false =>
    cases hy : isNaN y with
    | true =>
      rw [choose_of_isNaN_right hx hy]
      exact .of_pair (.inl rfl) (leads_refl h) fun hnum => by simp [hy] at hnum
    | false =>
      rcases choose_of_numbers (c := c) h hx hy with ⟨hchoose, hleads⟩ | ⟨hchoose, hleads⟩
      · rw [hchoose]
        exact .of_pair (.inl rfl) (leads_refl h) fun _ => hleads
      · rw [hchoose]
        exact .of_pair (.inr rfl) (fun _ => hleads) (leads_refl h)

/-- What two lists are joined into, joined, is what both together are joined into. -/
theorem Joined.append (h : Ranked rank) (hm : Joined c xs m) (hm' : Joined c ys m')
    (hk : Joined c [m, m'] k) : Joined c (xs ++ ys) k where
  mem := by
    rcases List.mem_pair.1 hk.mem with rfl | rfl
    · exact List.mem_append_left _ hm.mem
    · exact List.mem_append_right _ hm'.mem
  leads x hx hnum := by
    rcases List.mem_append.1 hx with hx | hx
    · have hlead := hm.leads x hx hnum
      exact (hk.leads m (by simp) (hlead.isNaN h).1).trans h hlead
    · have hlead := hm'.leads x hx hnum
      exact (hk.leads m' (by simp) (hlead.isNaN h).1).trans h hlead

/-- One more membership, and what is taken then: a step of the walk. -/
theorem Joined.concat (h : Ranked rank) (hm : Joined c xs m) (y : α) :
    Joined c (xs ++ [y]) (c.choose m y) :=
  hm.append h (joined_singleton h y) (joined_pair h m y)

theorem joined_foldl (h : Ranked rank) (ys : List α) (hm : Joined c xs m) :
    Joined c (xs ++ ys) (ys.foldl c.choose m) := by
  induction ys generalizing xs m with
  | nil =>
    rw [List.append_nil]
    exact hm
  | cons y ys ih =>
    have hnext := ih (hm.concat h y)
    rwa [List.append_assoc] at hnext

/-- **A list with members is joined**, into one of them that leads every number. -/
theorem exists_joined (h : Ranked rank) (hxs : xs ≠ []) :
    ∃ m, c.join xs = some m ∧ Joined c xs m := by
  obtain ⟨x, xs, rfl⟩ := List.exists_cons_of_ne_nil hxs
  exact ⟨_, join_cons c x xs, joined_foldl h xs (joined_singleton h x)⟩

theorem joined_join (h : Ranked rank) (hjoin : c.join xs = some m) : Joined c xs m := by
  have hxs : xs ≠ [] := by
    rintro rfl
    rw [(join_eq_none_iff c []).2 rfl] at hjoin
    cases hjoin
  obtain ⟨m', hm', hjoined⟩ := exists_joined (c := c) h hxs
  obtain rfl : m' = m := Option.some.inj (hm'.symm.trans hjoin)
  exact hjoined

/-- It is no number iff no member is one. -/
theorem Joined.isNaN_iff (h : Ranked rank) (hm : Joined c xs m) :
    isNaN m = true ↔ ∀ x ∈ xs, isNaN x = true := by
  refine ⟨fun hnan x hx => ?_, fun hall => hall m hm.mem⟩
  cases hnum : isNaN x with
  | true => rfl
  | false =>
    rw [((hm.leads x hx hnum).isNaN h).1] at hnan
    cases hnan

/-- **Lists with the same members are joined into the same**, up to the sign of a zero. -/
theorem Joined.alike (h : Ranked rank) (hm : Joined c xs m) (hm' : Joined c ys m')
    (hsame : ∀ x, x ∈ xs ↔ x ∈ ys) : Alike m m' := by
  have hmem := (hsame m).1 hm.mem
  have hmem' := (hsame m').2 hm'.mem
  cases hnum : isNaN m with
  | true => exact .inr ⟨hnum, (hm.isNaN_iff h).1 hnum m' hmem'⟩
  | false =>
    have hlead := hm'.leads m hmem hnum
    exact .inl ((hm.leads m' hmem' (hlead.isNaN h).1).beq h hlead)

/-! ## 3. Both widths -/

/-- How lists of memberships are joined, whatever the memberships are. -/
structure Joins (α : Type) [Scalar α] [LE α] (c : Connective) : Prop where
  /-- Only the empty list is not joined. -/
  none_iff (xs : List α) : c.join xs = none ↔ xs = []
  /-- A list is joined into no number iff it has members and none is one. -/
  isNaN_iff (xs : List α) :
    (∃ m, c.join xs = some m ∧ isNaN m = true) ↔ xs ≠ [] ∧ ∀ x ∈ xs, isNaN x = true
  /-- Otherwise it is joined into a number of the list that leads all of its numbers. -/
  leads (xs : List α) : (∃ x ∈ xs, isNaN x = false) →
    ∃ m ∈ xs, c.join xs = some m ∧ isNaN m = false ∧ ∀ x ∈ xs, isNaN x = false → c.Leads m x
  /-- Neither the order nor the repetition of members matters. -/
  same_members (xs ys : List α) : (∀ x, x ∈ xs ↔ x ∈ ys) →
    Option.Rel Alike (c.join xs) (c.join ys)
  /-- Parts can be joined first. -/
  append (xs ys : List α) : xs ≠ [] → ys ≠ [] →
    ∃ m m', c.join xs = some m ∧ c.join ys = some m' ∧
      Option.Rel Alike (c.join (xs ++ ys)) (c.join [m, m'])

theorem joins_of_ranked (h : Ranked rank) (c : Connective) : Joins α c where
  none_iff := join_eq_none_iff c
  isNaN_iff xs := by
    refine ⟨?_, fun ⟨hxs, hall⟩ => ?_⟩
    · rintro ⟨m, hjoin, hnan⟩
      have hm := joined_join h hjoin
      exact ⟨List.ne_nil_of_mem hm.mem, (hm.isNaN_iff h).1 hnan⟩
    · obtain ⟨m, hjoin, hm⟩ := exists_joined (c := c) h hxs
      exact ⟨m, hjoin, hall m hm.mem⟩
  leads xs := by
    rintro ⟨x, hx, hnum⟩
    obtain ⟨m, hjoin, hm⟩ := exists_joined (c := c) h (List.ne_nil_of_mem hx)
    exact ⟨m, hm.mem, hjoin, ((hm.leads x hx hnum).isNaN h).1, hm.leads⟩
  same_members xs ys hsame := by
    cases hjoin : c.join xs with
    | none =>
      obtain rfl := (join_eq_none_iff c xs).1 hjoin
      have hys : ys = [] := List.eq_nil_iff_forall_not_mem.2 fun x hx => nomatch (hsame x).2 hx
      rw [(join_eq_none_iff c ys).2 hys]
      exact .none
    | some m =>
      have hm := joined_join h hjoin
      obtain ⟨m', hjoin', hm'⟩ :=
        exists_joined (c := c) h (List.ne_nil_of_mem ((hsame m).1 hm.mem))
      rw [hjoin']
      exact .some (hm.alike h hm' hsame)
  append xs ys hxs hys := by
    obtain ⟨m, hjoin, hm⟩ := exists_joined (c := c) h hxs
    obtain ⟨m', hjoin', hm'⟩ := exists_joined (c := c) h hys
    obtain ⟨k, hk, hpair⟩ := exists_joined (c := c) h (List.cons_ne_nil m [m'])
    obtain ⟨k', hk', hwhole⟩ := exists_joined (c := c) h (List.append_ne_nil_of_left_ne_nil hxs ys)
    refine ⟨m, m', hjoin, hjoin', ?_⟩
    rw [hk, hk']
    exact .some (hwhole.alike h (hm.append h hm' hpair) fun _ => Iff.rfl)

/-- **Lists of doubles are joined so, and lists of scalars of single width.** -/
theorem joins_both_widths (c : Connective) : Joins Float c ∧ Joins Float32 c :=
  ⟨joins_of_ranked ranked_double c, joins_of_ranked ranked_single c⟩

/-- What is not a number gives way, wherever it stands. -/
example : Connective.and.join [0 / 0, 0.5, 0.25, 0 / 0, 0.75] = some (0.25 : Float) := by decide

/-- Of two zeros the first one is taken, so the order can decide the sign. -/
example : Connective.or.join [0, -0] ≠ Connective.or.join [-0, (0 : Float)] := by decide

end FuzzyControl.Connective
