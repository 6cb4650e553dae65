import FuzzyControl.Variable
import FuzzyControl.Proofs.Results

/-!
# Which sets make a variable

There are two ways to make a variable of sets at once. A list of sets is added set by set, which
fails when a name comes a second time. A registry is looked through for an entry that does not
stand under the name of its set, and then its sets are added: filed under distinct keys that are
their names they have distinct names, so that nothing can come twice.

* `add_of_new`, `add_of_taken`: one more set; `foldlM_add`: a list of sets with new names;
* `Repeats`: the first set of a list whose name came before it;
* `ofSets_eq_ok_iff`, `ofSets_eq_error_iff`: what a list of sets makes;
* `ofRegistry_eq_ok_iff`, `ofRegistry_eq_error_iff`: what a registry makes;
* `filing`: both, and that the registry of a variable makes this variable.
-/

namespace FuzzyControl.Variable

open Results

variable {v : Variable} {s : FuzzySet} {sets : List FuzzySet} {fault : Fault} {name : String}

/-! ## 1. Set by set -/

/-- A set with a new name is filed last. -/
theorem add_of_new (h : s.name ∉ v.sets.names) :
    ∃ w, v.add s = .ok w ∧ w.name = v.name ∧ w.sets.values = v.sets.values ++ [s] :=
  ⟨_, dif_neg h, rfl, Registry.values_push v.sets s.name s h⟩

/-- A set whose name is taken is refused. -/
theorem add_of_taken (h : s.name ∈ v.sets.names) : v.add s = .error (.duplicateSet s.name) :=
  dif_pos h

/-- Sets with new names are added one after the other, behind those that were added before. -/
theorem foldlM_add (hnodup : ((v.sets.values ++ sets).map FuzzySet.name).Nodup) :
    ∃ w, sets.foldlM add v = .ok w ∧ w.name = v.name ∧ w.sets.values = v.sets.values ++ sets := by
  induction sets generalizing v with
  | nil => exact ⟨v, rfl, rfl, (List.append_nil _).symm⟩
  | cons s sets ih =>
    have hnew : s.name ∉ v.sets.names := by
      rw [v.filed.names_eq]
      rw [List.map_append, List.nodup_append] at hnodup
      exact fun hmem => hnodup.2.2 s.name hmem s.name (by simp) rfl
    obtain ⟨u, hu, huname, husets⟩ := add_of_new hnew
    have hsets : u.sets.values ++ sets = v.sets.values ++ s :: sets := by
      rw [husets, List.append_assoc, List.singleton_append]
    obtain ⟨w, hw, hname, hvalues⟩ := ih (v := u) (hsets ▸ hnodup)
    refine ⟨w, ?_, hname.trans huname, hvalues.trans hsets⟩
    rw [List.foldlM_cons, hu]
    exact hw

/-- The sets of a variable have distinct names. -/
theorem nodup_names (v : Variable) : (v.sets.values.map FuzzySet.name).Nodup :=
  v.filed.names_eq ▸ v.sets.nodup

/-- A set is found under its own name, and nothing else is found under it. -/
theorem get_eq_ok_iff : v.get name = .ok s ↔ s ∈ v.sets.values ∧ s.name = name := by
  rw [← v.filed.find?_eq_some_iff]
  unfold get
  cases v.sets.find? name <;> simp

/-! ## 2. Lists of sets -/

/-- `s` is the first set of the list whose name came before it. -/
def Repeats (sets : List FuzzySet) (s : FuzzySet) : Prop :=
  ∃ before after, sets = before ++ s :: after ∧ (before.map FuzzySet.name).Nodup ∧
    s.name ∈ before.map FuzzySet.name

/-- Names that are not distinct have a first one that came before. -/
theorem exists_repeats (h : ¬ (sets.map FuzzySet.name).Nodup) : ∃ s, Repeats sets s := by
  -- From the end: the last set is the one to name only if the sets before it are distinct.
  induction sets using List.reverseRecOn with
  | nil => exact absurd List.nodup_nil h
  | append_singleton sets s ih =>
    by_cases hbefore : (sets.map FuzzySet.name).Nodup
    · refine ⟨s, sets, [], rfl, hbefore, ?_⟩
      by_contra hnew
      rw [List.map_append, List.map_singleton] at h
      exact h (Registry.nodup_append_singleton hbefore hnew)
    · obtain ⟨t, before, after, rfl, hnodup, hmem⟩ := ih hbefore
      exact ⟨t, before, after ++ [s], by simp, hnodup, hmem⟩

/-- **The first repeated name is what a list of sets fails with.** -/
theorem ofSets_of_repeats (h : Repeats sets s) :
    ofSets name sets = .error (.duplicateSet s.name) := by
  obtain ⟨before, after, rfl, hnodup, hmem⟩ := h
  obtain ⟨u, hu, -, husets⟩ := @foldlM_add (empty name) before hnodup
  have htaken : s.name ∈ u.sets.names := by
    rw [u.filed.names_eq, husets]
    exact hmem
  unfold ofSets
  rw [List.foldlM_append, hu]
  show (after.foldlM add =<< u.add s) = _
  rw [add_of_taken htaken]
  rfl

/-- A list of sets makes a variable iff their names are distinct, the one with these sets. -/
theorem ofSets_eq_ok_iff : ofSets name sets = .ok v ↔
    (sets.map FuzzySet.name).Nodup ∧ v.name = name ∧ v.sets.values = sets := by
  constructor
  · intro h
    have hnodup : (sets.map FuzzySet.name).Nodup := by
      by_contra hrepeated
      obtain ⟨s, hs⟩ := exists_repeats hrepeated
      exact nomatch h.symm.trans (ofSets_of_repeats hs)
    obtain ⟨w, hw, hname, hsets⟩ := @foldlM_add (empty name) sets hnodup
    cases h.symm.trans hw
    exact ⟨hnodup, hname, hsets⟩
  · intro h
    obtain ⟨hnodup, hname, hsets⟩ := h
    obtain ⟨w, hw, hwname, hwsets⟩ := @foldlM_add (empty name) sets hnodup
    have heq : w = v := Variable.ext (hwname.trans hname.symm)
      (w.filed.eq_of_values v.filed (hwsets.trans hsets.symm))
    exact heq ▸ hw

theorem exists_ofSets_iff :
    (∃ v, ofSets name sets = .ok v) ↔ (sets.map FuzzySet.name).Nodup := by
  constructor
  · intro h
    obtain ⟨v, hv⟩ := h
    exact (ofSets_eq_ok_iff.1 hv).1
  · intro hnodup
    obtain ⟨w, hw, -⟩ := @foldlM_add (empty name) sets hnodup
    exact ⟨w, hw⟩

/-- A list of sets fails with its first repeated name, and with nothing else. -/
theorem ofSets_eq_error_iff : ofSets name sets = .error fault ↔
    ∃ s, Repeats sets s ∧ fault = .duplicateSet s.name := by
  constructor
  · intro h
    have hrepeated : ¬ (sets.map FuzzySet.name).Nodup := by
      intro hnodup
      obtain ⟨v, hv⟩ := exists_ofSets_iff.2 hnodup
      exact nomatch h.symm.trans hv
    obtain ⟨s, hs⟩ := exists_repeats hrepeated
    exact ⟨s, hs, Except.error.inj (h.symm.trans (ofSets_of_repeats hs))⟩
  · intro h
    obtain ⟨s, hs, rfl⟩ := h
    exact ofSets_of_repeats hs

/-! ## 3. Registries of sets -/

variable {filed : Registry FuzzySet}

/-- Sets that stand under their own names are added without fail. -/
theorem ofRegistry_of_filedBy (h : filed.FiledBy FuzzySet.name) :
    ofRegistry name filed = .ok ⟨name, filed, h⟩ := by
  unfold ofRegistry
  rw [(Registry.misfiled?_eq_none_iff _ _).2 h]
  exact ofSets_eq_ok_iff.2 ⟨nodup_names ⟨name, filed, h⟩, rfl, rfl⟩

/-- A variable is made of its name and its sets. -/
theorem ofRegistry_sets (v : Variable) : ofRegistry v.name v.sets = .ok v :=
  ofRegistry_of_filedBy v.filed

/-- What is wrong with an entry of a registry: it does not stand under the name of its set. -/
def Misfiled (name : String) (e : String × FuzzySet) (fault : Fault) : Prop :=
  e.1 ≠ e.2.name ∧ fault = .invalidSet e.2.name (.misfiled e.1 name)

/-- **The first misfiled entry is what a registry fails with.** -/
theorem ofRegistry_eq_error_iff : ofRegistry name filed = .error fault ↔
    First (Misfiled name) filed.entries fault := by
  have hfirst : First (Misfiled name) filed.entries fault ↔
      (filed.misfiled? FuzzySet.name).map
        (fun e => Fault.invalidSet e.2.name (.misfiled e.1 name)) = some fault := by
    unfold Registry.misfiled?
    rw [find?_map_eq_some_iff]
    exact first_congr fun e _ fault => by rw [Misfiled, bne_iff_ne]
  rw [hfirst]
  cases hmisfiled : filed.misfiled? FuzzySet.name with
  | none =>
    rw [ofRegistry_of_filedBy ((Registry.misfiled?_eq_none_iff _ _).1 hmisfiled)]
    exact ⟨nofun, nofun⟩
  | some e =>
    unfold ofRegistry
    rw [hmisfiled, Option.map_some, Option.some.injEq, Except.error.injEq]

theorem ofRegistry_eq_ok_iff : ofRegistry name filed = .ok v ↔
    filed.FiledBy FuzzySet.name ∧ v.name = name ∧ v.sets = filed := by
  constructor
  · intro h
    have hfiled : filed.FiledBy FuzzySet.name := by
      by_contra hmisfiled
      rw [← Registry.misfiled?_eq_none_iff] at hmisfiled
      obtain ⟨e, he⟩ := Option.ne_none_iff_exists'.1 hmisfiled
      rw [ofRegistry, he] at h
      exact nomatch h
    cases h.symm.trans (ofRegistry_of_filedBy hfiled)
    exact ⟨hfiled, rfl, rfl⟩
  · intro h
    obtain ⟨-, rfl, rfl⟩ := h
    exact v.ofRegistry_sets

/-! ## 4. Both ways -/

/-- **Sets make a variable iff they are filed under their own names, or come in a list with
distinct names.** The variable has just these sets in their order, each found under its name. A
registry fails with its first misfiled entry, never with a name that comes twice; a list fails with
the first name that came before. What a variable is made of makes it again. -/
theorem filing (name : String) (filed : Registry FuzzySet) (sets : List FuzzySet) :
    ((∃ v, ofRegistry name filed = .ok v) ↔ ∀ e ∈ filed.entries, e.1 = e.2.name) ∧
    (∀ v, ofRegistry name filed = .ok v →
      v.name = name ∧ v.sets = filed ∧ ∀ s ∈ filed.values, v.get s.name = .ok s) ∧
    (∀ fault, ofRegistry name filed = .error fault ↔
      ∃ before key s after, filed.entries = before ++ (key, s) :: after ∧
        (∀ e ∈ before, e.1 = e.2.name) ∧ key ≠ s.name ∧
        fault = .invalidSet s.name (.misfiled key name)) ∧
    (∀ twice, ofRegistry name filed ≠ .error (.duplicateSet twice)) ∧
    ((∃ v, ofSets name sets = .ok v) ↔ (sets.map FuzzySet.name).Nodup) ∧
    (∀ v, ofSets name sets = .ok v → v.name = name ∧ v.sets.values = sets) ∧
    (∀ fault, ofSets name sets = .error fault ↔
      ∃ before s after, sets = before ++ s :: after ∧ (before.map FuzzySet.name).Nodup ∧
        s.name ∈ before.map FuzzySet.name ∧ fault = .duplicateSet s.name) ∧
    ∀ v : Variable, ofRegistry v.name v.sets = .ok v := by
  refine ⟨⟨?_, fun h => ⟨_, ofRegistry_of_filedBy h⟩⟩, ?_, fun fault => ?_, ?_, exists_ofSets_iff,
    fun v hv => (ofSets_eq_ok_iff.1 hv).2, fun fault => ?_, ofRegistry_sets⟩
  · intro h
    obtain ⟨v, hv⟩ := h
    exact (ofRegistry_eq_ok_iff.1 hv).1
  · intro v hv
    obtain ⟨-, hname, rfl⟩ := ofRegistry_eq_ok_iff.1 hv
    exact ⟨hname, rfl, fun s hs => get_eq_ok_iff.2 ⟨hs, rfl⟩⟩
  · rw [ofRegistry_eq_error_iff, first_iff_exists_append]
    constructor
    · intro h
      obtain ⟨before, e, after, hentries, hbefore, hne, hfault⟩ := h
      exact ⟨before, e.1, e.2, after, hentries,
        fun e he => not_not.1 fun hne => hbefore e he _ ⟨hne, rfl⟩, hne, hfault⟩
    · intro h
      obtain ⟨before, key, s, after, hentries, hbefore, hne, hfault⟩ := h
      exact ⟨before, (key, s), after, hentries,
        fun e he fault h => h.1 (hbefore e he), hne, hfault⟩
  · intro twice h
    obtain ⟨e, -, -, hfault⟩ := (ofRegistry_eq_error_iff.1 h).exists_mem
    exact nomatch hfault
  · rw [ofSets_eq_error_iff]
    constructor
    · intro h
      obtain ⟨s, ⟨before, after, hsets, hnodup, hmem⟩, hfault⟩ := h
      exact ⟨before, s, after, hsets, hnodup, hmem, hfault⟩
    · intro h
      obtain ⟨before, s, after, hsets, hnodup, hmem, hfault⟩ := h
      exact ⟨s, ⟨before, after, hsets, hnodup, hmem⟩, hfault⟩

/-- The tank is low. -/
def low : FuzzySet := ⟨"low", [⟨0, 1⟩, ⟨1, 0⟩]⟩

/-- The tank is full. -/
def full : FuzzySet := ⟨"full", [⟨0, 0⟩, ⟨1, 1⟩]⟩

/-- Both sets under their names, and the second under another one. -/
def levels (key : String) (h : key ≠ "low") : Registry FuzzySet :=
  ⟨[("low", low), (key, full)], by simpa using Ne.symm h⟩

/-- Under their names the two make a variable; "brimful" is no name for the second one, and the
first cannot come twice. -/
theorem filing_levels :
    (∃ v, ofRegistry "level" (levels "full" (by decide)) = .ok v ∧ v.get "full" = .ok full) ∧
    ofRegistry "level" (levels "brimful" (by decide)) =
      .error (.invalidSet "full" (.misfiled "brimful" "level")) ∧
    ofSets "level" [low, full, low] = .error (.duplicateSet "low") := by
  refine ⟨?_, ?_, ?_⟩
  · obtain ⟨hmade, hsets, -⟩ := filing "level" (levels "full" (by decide)) []
    obtain ⟨v, hv⟩ := hmade.2 (by decide)
    exact ⟨v, hv, (hsets v hv).2.2 full (by decide)⟩
  · obtain ⟨-, -, hmisfiled, -⟩ := filing "level" (levels "brimful" (by decide)) []
    exact (hmisfiled _).2 ⟨[("low", low)], "brimful", full, [], rfl, by decide, by decide, rfl⟩
  · obtain ⟨-, -, -, -, -, -, hrepeated, -⟩ := filing "level" .empty [low, full, low]
    exact (hrepeated _).2 ⟨[low, full], low, [], rfl, by decide, by decide, rfl⟩

end FuzzyControl.Variable
