import FuzzyControl.Text.Blank

/-!
# Words on either side of a blank

A blank ends the word before it, whatever stands there. So the words of a text that has been put
together with blanks are the words of its parts, and a part without a blank is a word of its own.
This is all there is to words: every text is put together of blanks and words in one way.

* `words_append_blank`: the words before a blank and those after it;
* `words_of_not_blank`: one word;
* `Runs`: the maximal runs of a text, said without the walk through it; `words_eq_iff`.
-/

namespace FuzzyControl.Text

theorem words_cons_ne_nil {c : Char} (hc : isBlank c = false) (s : List Char) :
    words (c :: s) ≠ [] := by
  cases s with
  | nil => simp [words, hc]
  | cons d rest =>
    rw [words, hc]
    simp only [Bool.false_eq_true, if_false]
    split
    · exact List.cons_ne_nil _ _
    · split <;> exact List.cons_ne_nil _ _

theorem words_blank_cons {c : Char} (hc : isBlank c = true) (s : List Char) :
    words (c :: s) = words s := by
  cases s with
  | nil => simp [words, hc]
  | cons d rest => simp [words, hc]

/-- **A blank parts a text into words.** -/
theorem words_append_blank (a b : List Char) {c : Char} (hc : isBlank c = true) :
    words (a ++ c :: b) = words a ++ words b := by
  fun_induction words a with
  | case1 => exact words_blank_cons hc b
  | case2 x hx => rw [List.singleton_append, words_blank_cons hx, words_blank_cons hc]; rfl
  | case3 x hx =>
    rw [List.singleton_append, words, if_neg hx, if_pos hc, words_blank_cons hc]
    rfl
  | case4 x y rest hx ih =>
    rw [List.cons_append, List.cons_append, words, if_pos hx]
    exact ih
  | case5 x y rest hx hy ih =>
    rw [List.cons_append, List.cons_append, words, if_neg hx, if_pos hy]
    exact congrArg ([x] :: ·) ih
  | case6 x y rest hx hy w ws hw ih =>
    rw [hw] at ih
    rw [List.cons_append, List.cons_append, words, if_neg hx, if_neg hy]
    rw [List.cons_append] at ih
    rw [ih]
    rfl
  | case7 x y rest hx hy hw => exact absurd hw (words_cons_ne_nil (Bool.eq_false_iff.2 hy) rest)

/-- A text without a blank is one word. -/
theorem words_of_not_blank {s : List Char} (hs : s ≠ []) (h : ∀ c ∈ s, isBlank c = false) :
    words s = [s] := by
  fun_induction words s with
  | case1 => exact absurd rfl hs
  | case2 x hx =>
    rw [h x List.mem_cons_self] at hx
    cases hx
  | case3 => rfl
  | case4 x y rest hx ih =>
    rw [h x List.mem_cons_self] at hx
    cases hx
  | case5 x y rest hx hy ih =>
    rw [h y (List.mem_cons_of_mem _ List.mem_cons_self)] at hy
    cases hy
  | case6 x y rest hx hy w ws hw ih =>
    have hrest := ih (List.cons_ne_nil y rest) fun c hc => h c (List.mem_cons_of_mem _ hc)
    rw [hw] at hrest
    obtain ⟨rfl, rfl⟩ := List.cons.inj hrest
    rfl
  | case7 x y rest hx hy hw => exact absurd hw (words_cons_ne_nil (Bool.eq_false_iff.2 hy) rest)

/-! ## Maximal runs -/

/-- A text whose maximal runs of characters that are not blank are the given ones: a gap of blanks,
a run that goes on until the next blank or the end, and the runs of what is left. -/
inductive Runs : List Char → List (List Char) → Prop where
  | gap {gap : List Char} (hgap : ∀ c ∈ gap, isBlank c = true) : Runs gap []
  | run {gap w rest : List Char} {ws : List (List Char)} (hgap : ∀ c ∈ gap, isBlank c = true)
      (hne : w ≠ []) (hw : ∀ c ∈ w, isBlank c = false)
      (hend : ∀ c ∈ rest.head?, isBlank c = true) (hrest : Runs rest ws) :
      Runs (gap ++ (w ++ rest)) (w :: ws)

theorem words_gap_append {gap : List Char} (hgap : ∀ c ∈ gap, isBlank c = true) (s : List Char) :
    words (gap ++ s) = words s := by
  induction gap with
  | nil => rfl
  | cons c gap ih =>
    rw [List.cons_append, words_blank_cons (hgap c List.mem_cons_self)]
    exact ih fun d hd => hgap d (List.mem_cons_of_mem _ hd)

/-- A run that goes on until a blank or the end is the first word. -/
theorem words_run_append {w : List Char} (hne : w ≠ []) (hw : ∀ c ∈ w, isBlank c = false)
    {rest : List Char} (hend : ∀ c ∈ rest.head?, isBlank c = true) :
    words (w ++ rest) = w :: words rest := by
  cases rest with
  | nil => rw [List.append_nil, words_of_not_blank hne hw]; rfl
  | cons c rest =>
    have hc : isBlank c = true := hend c rfl
    rw [words_append_blank w rest hc, words_of_not_blank hne hw, words_blank_cons hc]
    rfl

theorem Runs.words_eq {s : List Char} {ws : List (List Char)} (h : Runs s ws) : words s = ws := by
  induction h with
  | @gap gap hgap =>
    rw [← List.append_nil gap, words_gap_append hgap]
    rfl
  | run hgap hne hw hend _ ih => rw [words_gap_append hgap, words_run_append hne hw hend, ih]

/-- A blank before a text adds no run. -/
theorem Runs.blank_cons {c : Char} (hc : isBlank c = true) {s : List Char} {ws : List (List Char)}
    (h : Runs s ws) : Runs (c :: s) ws := by
  have hcons : ∀ {gap : List Char}, (∀ d ∈ gap, isBlank d = true) →
      ∀ d ∈ c :: gap, isBlank d = true := fun hgap => List.forall_mem_cons.2 ⟨hc, hgap⟩
  cases h with
  | gap hgap => exact .gap (hcons hgap)
  | run hgap hne hw hend hrest => exact .run (hcons hgap) hne hw hend hrest

/-- A character that a blank or the end follows is a run of its own. -/
theorem Runs.single_cons {c : Char} (hc : isBlank c = false) {s : List Char}
    {ws : List (List Char)} (hend : ∀ d ∈ s.head?, isBlank d = true) (h : Runs s ws) :
    Runs (c :: s) ([c] :: ws) := by
  have hgap : ∀ d ∈ ([] : List Char), isBlank d = true := nofun
  have hw : ∀ d ∈ [c], isBlank d = false := List.forall_mem_singleton.2 hc
  exact .run hgap (List.cons_ne_nil c []) hw hend h

/-- A character before the first run lengthens it, if there is no gap between them. -/
theorem Runs.cons_run {c d : Char} (hc : isBlank c = false) (hd : isBlank d = false)
    {s w : List Char} {ws : List (List Char)} (h : Runs (d :: s) (w :: ws)) :
    Runs (c :: d :: s) ((c :: w) :: ws) := by
  generalize ht : d :: s = t at *
  cases h with
  | @run gap _ rest _ hgap hne hw hend hrest =>
    cases gap with
    | nil => exact .run hgap (List.cons_ne_nil c w) (List.forall_mem_cons.2 ⟨hc, hw⟩) hend hrest
    | cons b gap =>
      obtain rfl : d = b := (List.cons.inj ht).1
      rw [hgap d List.mem_cons_self] at hd
      cases hd

/-- Every text is made of its words. -/
theorem runs_words (s : List Char) : Runs s (words s) := by
  fun_induction words s with
  | case1 => exact .gap (List.forall_mem_nil _)
  | case2 c hc => exact .gap (List.forall_mem_singleton.2 hc)
  | case3 c hc =>
    exact .single_cons (Bool.eq_false_iff.2 hc) (by simp) (.gap (List.forall_mem_nil _))
  | case4 c d rest hc ih => exact ih.blank_cons hc
  | case5 c d rest hc hd ih =>
    refine ih.single_cons (Bool.eq_false_iff.2 hc) fun e he => ?_
    rwa [← Option.some.inj he]
  | case6 c d rest hc hd w ws hw ih =>
    rw [hw] at ih
    exact ih.cons_run (Bool.eq_false_iff.2 hc) (Bool.eq_false_iff.2 hd)
  | case7 c d rest hc hd hw => exact absurd hw (words_cons_ne_nil (Bool.eq_false_iff.2 hd) rest)

/-- **The words of a text are its maximal runs.** -/
theorem words_eq_iff (s : List Char) (ws : List (List Char)) : words s = ws ↔ Runs s ws :=
  ⟨fun h => h ▸ runs_words s, Runs.words_eq⟩

end FuzzyControl.Text
