import Mathlib

/-!
# Computations that can fail

What it takes for a computation in `Except` to succeed, and with what it fails, as statements about
its parts.

* `bind_eq_ok_iff`, `bind_eq_error_iff`: one part after the other;
* `mapM_eq_ok_iff`: a walk through a list; `exists_forall₂` and `exists_mem_right` go with it;
* `foldlM_invariant`: what every step of a fold keeps; `foldlM_eq_mapM`: a fold that takes in what
  each step computes;
* `First`: the fault of the first element of a list that has one; `mapM_eq_error_iff`: a walk fails
  with it.
-/

namespace FuzzyControl.Results

variable {α β γ ε : Type}

theorem bind_eq_ok_iff {x : Except ε α} {f : α → Except ε β} {b : β} :
    x >>= f = .ok b ↔ ∃ a, x = .ok a ∧ f a = .ok b := by
  cases x with
  | error e => exact ⟨nofun, nofun⟩
  | ok a => exact ⟨fun h => ⟨a, rfl, h⟩, fun ⟨_, ha, h⟩ => by cases ha; exact h⟩

theorem pure_eq_ok_iff {a b : α} : (pure a : Except ε α) = .ok b ↔ b = a := by
  show Except.ok a = Except.ok b ↔ _
  rw [Except.ok.injEq, eq_comm]

/-- A walk through a list succeeds iff every step does, each with its own result. -/
theorem mapM_eq_ok_iff {f : α → Except ε β} {xs : List α} {ys : List β} :
    xs.mapM f = .ok ys ↔ List.Forall₂ (fun x y => f x = .ok y) xs ys := by
  induction xs generalizing ys with
  | nil => rw [List.mapM_nil, pure_eq_ok_iff, List.forall₂_nil_left_iff]
  | cons x xs ih =>
    simp only [List.mapM_cons, bind_eq_ok_iff, pure_eq_ok_iff, List.forall₂_cons_left_iff, ih]
    constructor
    · intro h
      obtain ⟨y, hy, ys', hys', rfl⟩ := h
      exact ⟨y, ys', hy, hys', rfl⟩
    · intro h
      obtain ⟨y, ys', hy, hys', rfl⟩ := h
      exact ⟨y, hy, ys', hys', rfl⟩

/-- Steps that agree on the elements of a list make the same walk through it. -/
theorem mapM_congr {f g : α → Except ε β} {xs : List α} (h : ∀ x ∈ xs, f x = g x) :
    xs.mapM f = xs.mapM g := by
  induction xs with
  | nil => rfl
  | cons x xs ih =>
    rw [List.mapM_cons, List.mapM_cons, h x List.mem_cons_self,
      ih fun x' hx' => h x' (List.mem_cons_of_mem _ hx')]

theorem exists_forall₂ {r : α → β → Prop} {xs : List α} (h : ∀ x ∈ xs, ∃ y, r x y) :
    ∃ ys, List.Forall₂ r xs ys := by
  induction xs with
  | nil => exact ⟨[], .nil⟩
  | cons x xs ih =>
    obtain ⟨y, hy⟩ := h x List.mem_cons_self
    obtain ⟨ys, hys⟩ := ih fun x' hx' => h x' (List.mem_cons_of_mem _ hx')
    exact ⟨y :: ys, .cons hy hys⟩

theorem exists_mem_right {r : α → β → Prop} {xs : List α} {ys : List β}
    (h : List.Forall₂ r xs ys) : ∀ x ∈ xs, ∃ y ∈ ys, r x y := by
  induction h with
  | nil => simp
  | cons hxy _ ih =>
    intro x hx
    rcases List.mem_cons.1 hx with rfl | hx
    · exact ⟨_, List.mem_cons_self, hxy⟩
    · obtain ⟨y, hy, hr⟩ := ih x hx
      exact ⟨y, List.mem_cons_of_mem _ hy, hr⟩

theorem exists_mem_left {r : α → β → Prop} {xs : List α} {ys : List β}
    (h : List.Forall₂ r xs ys) : ∀ y ∈ ys, ∃ x ∈ xs, r x y :=
  exists_mem_right h.flip

/-- What every step of a fold keeps holds at its end. -/
theorem foldlM_invariant {f : β → α → Except ε β} {p : β → Prop} {xs : List α}
    (hstep : ∀ a ∈ xs, ∀ b b', p b → f b a = .ok b' → p b') {b b' : β} (hb : p b)
    (h : xs.foldlM f b = .ok b') : p b' := by
  induction xs generalizing b with
  | nil =>
    rw [List.foldlM_nil, pure_eq_ok_iff] at h
    exact h ▸ hb
  | cons a xs ih =>
    rw [List.foldlM_cons, bind_eq_ok_iff] at h
    obtain ⟨b₁, hb₁, h⟩ := h
    exact ih (fun a' ha' => hstep a' (List.mem_cons_of_mem _ ha'))
      (hstep a List.mem_cons_self b b₁ hb hb₁) h

/-- A fold that takes in what each of its steps computes can as well compute all of it first. -/
theorem foldlM_eq_mapM (f : α → Except ε β) (g : γ → β → γ) (xs : List α) (c : γ) :
    xs.foldlM (fun c x => do return g c (← f x)) c = (do return (← xs.mapM f).foldl g c) := by
  induction xs generalizing c with
  | nil => rfl
  | cons x xs ih =>
    rw [List.foldlM_cons, List.mapM_cons]
    cases f x with
    | error e => rfl
    | ok y =>
      show xs.foldlM _ (g c y) = _
      rw [ih]
      cases xs.mapM f <;> rfl

/-! ## Faults -/

theorem bind_eq_error_iff {x : Except ε α} {f : α → Except ε β} {e : ε} :
    x >>= f = .error e ↔ x = .error e ∨ ∃ a, x = .ok a ∧ f a = .error e := by
  cases x with
  | error e' => exact ⟨fun h => .inl (Except.error.inj h ▸ rfl), by
      rintro (h | ⟨a, ha, -⟩)
      · cases h; rfl
      · cases ha⟩
  | ok a => exact ⟨fun h => .inr ⟨a, rfl, h⟩, by
      rintro (h | ⟨a', ha, h⟩)
      · cases h
      · cases ha; exact h⟩

/-- What is done with a result that cannot fail adds no fault. -/
theorem bind_pure_eq_error_iff {x : Except ε α} {g : α → β} {e : ε} :
    (x >>= fun a => pure (g a)) = .error e ↔ x = .error e := by
  rw [bind_eq_error_iff]
  exact or_iff_left (fun ⟨_, _, h⟩ => nomatch h)

/-- A computation succeeds iff it has no fault. -/
theorem isOk_iff_forall_ne_error {x : Except ε α} : (∃ a, x = .ok a) ↔ ∀ e, x ≠ .error e := by
  cases x with
  | error e => exact ⟨nofun, fun h => absurd rfl (h e)⟩
  | ok a => exact ⟨nofun, fun _ => ⟨a, rfl⟩⟩

/-- The fault `e` is that of the first element of a list that has a fault; `r` says which faults an
element has. -/
inductive First (r : α → ε → Prop) : List α → ε → Prop
  | here {x : α} {xs : List α} {e : ε} (h : r x e) : First r (x :: xs) e
  | later {x : α} {xs : List α} {e : ε} (hx : ∀ e', ¬ r x e') (h : First r xs e) :
      First r (x :: xs) e

section First

variable {r : α → ε → Prop} {xs ys : List α} {e : ε}

theorem first_nil_iff : First r [] e ↔ False := ⟨nofun, nofun⟩

theorem first_cons_iff {x : α} :
    First r (x :: xs) e ↔ r x e ∨ (∀ e', ¬ r x e') ∧ First r xs e := by
  constructor
  · intro h
    cases h with
    | here h => exact .inl h
    | later hx h => exact .inr ⟨hx, h⟩
  · rintro (h | ⟨hx, h⟩)
    · exact .here h
    · exact .later hx h

theorem First.exists_mem (h : First r xs e) : ∃ x ∈ xs, r x e := by
  induction h with
  | here h => exact ⟨_, List.mem_cons_self, h⟩
  | later _ _ ih =>
    obtain ⟨x, hx, h⟩ := ih
    exact ⟨x, List.mem_cons_of_mem _ hx, h⟩

/-- The first fault is that of an element behind elements that have none. -/
theorem first_iff_exists_append : First r xs e ↔
    ∃ before x after, xs = before ++ x :: after ∧ (∀ y ∈ before, ∀ e', ¬ r y e') ∧ r x e := by
  constructor
  · intro h
    induction h with
    | here h => exact ⟨[], _, _, rfl, by simp, h⟩
    | later hx _ ih =>
      obtain ⟨before, y, after, rfl, hbefore, hy⟩ := ih
      exact ⟨_ :: before, y, after, rfl, List.forall_mem_cons.2 ⟨hx, hbefore⟩, hy⟩
  · intro h
    obtain ⟨before, x, after, rfl, hbefore, hx⟩ := h
    induction before with
    | nil => exact .here hx
    | cons y before ih =>
      obtain ⟨hy, hbefore⟩ := List.forall_mem_cons.1 hbefore
      exact .later hy (ih hbefore)

/-- There is no first fault iff there is no fault. -/
theorem forall_not_first_iff : (∀ e, ¬ First r xs e) ↔ ∀ x ∈ xs, ∀ e, ¬ r x e := by
  constructor
  · intro h
    induction xs with
    | nil => simp
    | cons x xs ih =>
      have hx : ∀ e, ¬ r x e := fun e he => h e (.here he)
      intro y hy
      rcases List.mem_cons.1 hy with rfl | hy
      · exact hx
      · exact ih (fun e he => h e (.later hx he)) y hy
  · intro h e he
    obtain ⟨x, hx, hr⟩ := he.exists_mem
    exact h x hx e hr

theorem first_append_iff :
    First r (xs ++ ys) e ↔ First r xs e ∨ (∀ e', ¬ First r xs e') ∧ First r ys e := by
  induction xs with
  | nil => simp [first_nil_iff]
  | cons x xs ih =>
    simp only [List.cons_append, first_cons_iff, ih, not_or, not_and, forall_and]
    tauto

theorem first_map_iff {g : β → α} {zs : List β} :
    First r (zs.map g) e ↔ First (fun z => r (g z)) zs e := by
  induction zs with
  | nil => simp [first_nil_iff]
  | cons z zs ih => rw [List.map_cons, first_cons_iff, first_cons_iff, ih]

/-- The first fault in a list of lists is the first fault of the first list that has one. -/
theorem first_flatMap_iff {g : β → List α} {zs : List β} :
    First r (zs.flatMap g) e ↔ First (fun z => First r (g z)) zs e := by
  induction zs with
  | nil => simp [first_nil_iff]
  | cons z zs ih => rw [List.flatMap_cons, first_append_iff, first_cons_iff, ih]

/-- Lists whose elements have the same faults, place by place, have the same first fault. -/
theorem first_congr_forall₂ {r' : β → ε → Prop} {zs : List β}
    (h : List.Forall₂ (fun x z => ∀ e, r x e ↔ r' z e) xs zs) : First r xs e ↔ First r' zs e := by
  induction h with
  | nil => simp [first_nil_iff]
  | cons hxz _ ih => simp only [first_cons_iff, hxz, ih]

theorem first_congr {r' : α → ε → Prop} (h : ∀ x ∈ xs, ∀ e, r x e ↔ r' x e) :
    First r xs e ↔ First r' xs e :=
  first_congr_forall₂ (List.forall₂_same.2 h)

/-- The first element that passes a test, as the fault that is made of it. -/
theorem find?_map_eq_some_iff {p : α → Bool} {g : α → ε} :
    (xs.find? p).map g = some e ↔ First (fun x e => p x = true ∧ e = g x) xs e := by
  induction xs with
  | nil => exact ⟨nofun, nofun⟩
  | cons x xs ih =>
    rw [first_cons_iff, ← ih]
    cases hx : p x with
    | true => simp [hx, eq_comm]
    | false => simp [hx]

/-- A guard with one fault, and what is looked at where it does not hold. -/
theorem guard_eq_some_iff {p : Prop} [Decidable p] {x : α} {e₀ : ε} {o : Option ε}
    (hx : ∀ e, r x e ↔ p ∧ e = e₀) (h : o = some e ↔ First r xs e) :
    (if p then some e₀ else o) = some e ↔ First r (x :: xs) e := by
  rw [first_cons_iff, ← h]
  simp only [hx]
  by_cases hp : p
  · simp [hp, eq_comm]
  · simp [hp]

/-- **A walk through a list fails with the first fault of a step.** -/
theorem mapM_eq_error_iff {f : α → Except ε β} :
    xs.mapM f = .error e ↔ First (fun x e => f x = .error e) xs e := by
  induction xs with
  | nil => exact ⟨nofun, nofun⟩
  | cons x xs ih =>
    simp only [List.mapM_cons, bind_eq_error_iff (x := f x), bind_pure_eq_error_iff,
      first_cons_iff, ← ih, ← isOk_iff_forall_ne_error, exists_and_right]

end First

end FuzzyControl.Results
