import FuzzyControl.Proofs.Results
import FuzzyControl.Json.Shapes

/-!
# What has been read from JSON

Whatever a reader accepts has been made by an operation of the library, which has checked it.

* `exists_of_readText`: what is read from a text is read from some value;
* `of_fields2`: what stands in the fields of a record has been read by the readers of the fields;
* `FuzzySet.valid_of_ofJson`, `Variable.valid_of_ofJson`: sets that are read are valid, also those
  of a variable;
* `Rule.exists_outline_of_ofJson`: a rule that is read is that of an outline.
-/

namespace FuzzyControl

open Results

/-! ## 1. Readers -/

namespace Json

variable {α β : Type}

theorem checked_eq_ok_iff {x : Except Fault α} {a : α} : checked x = .ok a ↔ x = .ok a := by
  cases x <;> simp [checked]

/-- What is read from a text is read from some value. -/
theorem exists_of_readText {read : Json → Reading α} {text : String} {a : α}
    (h : readText read text = .ok a) : ∃ v, read v = .ok a := by
  unfold readText at h
  generalize ofText text = p at h
  obtain ⟨v, whole⟩ := p
  obtain ⟨a', ha', h⟩ := bind_eq_ok_iff.1 h
  cases whole with
  | false => cases h
  | true => exact ⟨v, (pure_eq_ok_iff.1 h) ▸ ha'⟩

theorem once_eq_ok {before after : Option α} {reading : Reading α}
    (h : once before reading = .ok after) : ∃ a, reading = .ok a ∧ after = some a := by
  cases before with
  | some b => cases h
  | none =>
    cases hreading : reading with
    | error r =>
      rw [hreading] at h
      cases h
    | ok a =>
      rw [hreading] at h
      cases h
      exact ⟨a, rfl, rfl⟩

/-- What stands in a field has been read by its reader. -/
theorem of_fields2 {first second : String} {readFirst : Json → Reading α}
    {readSecond : Json → Reading β} {v : Json} {x : Option α × Option β}
    (h : fields2 first readFirst second readSecond v = .ok x) :
    (∀ a ∈ x.1, ∃ w, readFirst w = .ok a) ∧ ∀ b ∈ x.2, ∃ w, readSecond w = .ok b := by
  obtain ⟨members, -, h⟩ := bind_eq_ok_iff.1 h
  refine foldlM_invariant (p := fun x : Option α × Option β =>
    (∀ a ∈ x.1, ∃ w, readFirst w = .ok a) ∧ ∀ b ∈ x.2, ∃ w, readSecond w = .ok b) ?_ ?_ h
  · rintro ⟨key, w⟩ - ⟨a, b⟩ after ⟨ha, hb⟩ hstep
    obtain ⟨key, -, hstep⟩ := bind_eq_ok_iff.1 hstep
    split at hstep
    · obtain ⟨a', ha', hstep⟩ := bind_eq_ok_iff.1 hstep
      obtain rfl := pure_eq_ok_iff.1 hstep
      obtain ⟨a', hread, rfl⟩ := once_eq_ok ha'
      exact ⟨fun a ha => ⟨w, Option.mem_some.1 ha ▸ hread⟩, hb⟩
    · split at hstep
      · obtain ⟨b', hb', hstep⟩ := bind_eq_ok_iff.1 hstep
        obtain rfl := pure_eq_ok_iff.1 hstep
        obtain ⟨b', hread, rfl⟩ := once_eq_ok hb'
        exact ⟨ha, fun b hb => ⟨w, Option.mem_some.1 hb ▸ hread⟩⟩
      · obtain ⟨-, -, hstep⟩ := bind_eq_ok_iff.1 hstep
        obtain rfl := pure_eq_ok_iff.1 hstep
        exact ⟨ha, hb⟩
  · exact ⟨nofun, nofun⟩

end Json

open Json

/-! ## 2. Sets -/

theorem FuzzySet.valid_of_ofJson {v : Json} {s : FuzzySet} (h : FuzzySet.ofJson v = .ok s) :
    s.Valid := by
  obtain ⟨⟨name, samples⟩, -, h⟩ := bind_eq_ok_iff.1 h
  obtain ⟨name, -, h⟩ := bind_eq_ok_iff.1 h
  exact valid_of_resample (checked_eq_ok_iff.1 h)

/-- The sets of an object are read one by one. -/
theorem Json.valid_of_asSets {v : Json} {sets : Registry FuzzySet} (h : asSets v = .ok sets) :
    ∀ s ∈ sets.values, s.Valid := by
  cases v with
  | object members =>
    refine foldlM_invariant (p := fun sets => ∀ s ∈ sets.values, s.Valid) ?_ ?_ h
    · rintro ⟨key, w⟩ - before after hbefore hstep
      obtain ⟨key, -, hstep⟩ := bind_eq_ok_iff.1 hstep
      obtain ⟨t, ht, hstep⟩ := bind_eq_ok_iff.1 hstep
      obtain rfl := pure_eq_ok_iff.1 hstep
      intro s hs
      rcases Registry.mem_values_insert hs with rfl | hs
      · exact FuzzySet.valid_of_ofJson ht
      · exact hbefore s hs
    · intro s hs
      cases hs
  | _ => cases h

namespace Variable

/-- A variable holds no other sets than it is given. -/
theorem mem_of_ofSets {name : String} {sets : List FuzzySet} {v : Variable}
    (h : ofSets name sets = .ok v) : ∀ s ∈ v.sets.values, s ∈ sets := by
  refine foldlM_invariant (p := fun v : Variable => ∀ s ∈ v.sets.values, s ∈ sets) ?_ ?_ h
  · intro t ht before after hbefore hstep s hs
    unfold add at hstep
    split at hstep
    · cases hstep
    · cases hstep
      rw [Registry.values_push] at hs
      rcases List.mem_append.1 hs with hs | hs
      · exact hbefore s hs
      · exact List.mem_singleton.1 hs ▸ ht
  · intro s hs
    cases hs

theorem mem_of_ofRegistry {name : String} {sets : Registry FuzzySet} {v : Variable}
    (h : ofRegistry name sets = .ok v) : ∀ s ∈ v.sets.values, s ∈ sets.values := by
  unfold ofRegistry at h
  split at h
  · cases h
  · exact mem_of_ofSets h

/-- **The sets of a variable that is read are valid**, each of them being read as a set. -/
theorem valid_of_ofJson {w : Json} {v : Variable} (h : Variable.ofJson w = .ok v) :
    ∀ s ∈ v.sets.values, s.Valid := by
  obtain ⟨⟨name, sets⟩, hfields, h⟩ := bind_eq_ok_iff.1 h
  obtain ⟨name, -, h⟩ := bind_eq_ok_iff.1 h
  intro s hs
  have hmem := mem_of_ofRegistry (checked_eq_ok_iff.1 h) s hs
  cases sets with
  | none => cases hmem
  | some sets =>
    obtain ⟨u, hu⟩ := (of_fields2 hfields).2 sets rfl
    exact valid_of_asSets hu s hmem

end Variable

/-! ## 3. Rules -/

theorem Rule.exists_outline_of_ofJson {v : Json} {r : Rule} (h : Rule.ofJson v = .ok r) :
    ∃ o : Outline, o.toRule = .ok r := by
  obtain ⟨o, -, h⟩ := bind_eq_ok_iff.1 h
  exact ⟨o, checked_eq_ok_iff.1 h⟩

end FuzzyControl
