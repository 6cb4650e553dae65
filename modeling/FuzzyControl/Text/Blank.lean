import FuzzyControl.Text.Ranges

/-!
# Blank characters and words

The blank characters are those with the Unicode property `White_Space`. They part a text into
words: the maximal runs of characters that are not blank.

* `isBlank`: the table of the property;
* `words`: the runs, in order; `not_blank_of_mem_words` and `ne_nil_of_mem_words` say that every
  word has a character and that none of them is blank.
-/

namespace FuzzyControl.Text

/-- The code points with the Unicode property `White_Space`, as inclusive ranges. -/
def blankRanges : List (Nat × Nat) :=
  [(0x9, 0xD), (0x20, 0x20), (0x85, 0x85), (0xA0, 0xA0), (0x1680, 0x1680), (0x2000, 0x200A),
    (0x2028, 0x2029), (0x202F, 0x202F), (0x205F, 0x205F), (0x3000, 0x3000)]

/-- Whether a character is blank. -/
def isBlank (c : Char) : Bool := inRanges blankRanges c

/-- The table has twenty-five characters. -/
example : (blankRanges.map fun r => r.2 + 1 - r.1).sum = 25 := by decide

/-- The maximal runs of characters that are not blank, in order. -/
def words : List Char → List (List Char)
  | [] => []
  | [c] => if isBlank c then [] else [[c]]
  | c :: d :: rest =>
      if isBlank c then words (d :: rest)
      else if isBlank d then [c] :: words (d :: rest)
      else match words (d :: rest) with
        | w :: ws => (c :: w) :: ws
        | [] => [[c]]

theorem ne_nil_of_mem_words (s : List Char) : ∀ w ∈ words s, w ≠ [] := by
  fun_induction words s with
  | case1 => simp
  | case2 => simp
  | case3 => simp
  | case4 c d rest hc ih => exact ih
  | case5 c d rest hc hd ih => simpa using ih
  | case6 c d rest hc hd w ws hw ih =>
    intro v hv
    rcases List.mem_cons.1 hv with rfl | hv
    · simp
    · exact ih v (hw ▸ List.mem_cons_of_mem _ hv)
  | case7 => simp

theorem not_blank_of_mem_words (s : List Char) :
    ∀ w ∈ words s, ∀ c ∈ w, isBlank c = false := by
  fun_induction words s with
  | case1 => simp
  | case2 => simp
  | case3 c hc => simpa using hc
  | case4 c d rest hc ih => exact ih
  | case5 c d rest hc hd ih =>
    intro w hw
    rcases List.mem_cons.1 hw with rfl | hw
    · simpa using hc
    · exact ih w hw
  | case6 c d rest hc hd w ws hw ih =>
    intro v hv
    rcases List.mem_cons.1 hv with rfl | hv
    · intro x hx
      rcases List.mem_cons.1 hx with rfl | hx
      · simpa using hc
      · exact ih w (hw ▸ List.mem_cons_self) x hx
    · exact ih v (hw ▸ List.mem_cons_of_mem _ hv)
  | case7 c d rest hc hd hw ih => simpa using hc

end FuzzyControl.Text
