import FuzzyControl.Proofs.Json.Reading
import FuzzyControl.Proofs.FuzzySet.Validity
import FuzzyControl.Proofs.Variable.Filing

/-!
# Sets and variables that are read back

A reader takes apart what its writer has put together, so a shape is read back if its parts are.
The one part that may be lost is a double: an infinite one is written as `null`, which is read as no
number. A valid set can have infinite values; what is written for it is refused.

* `ReadsBack`: what is written is read as what it was, or refused, as a condition says;
* `ReadsBack.list`, `fields2_object`, `asSets_object`: lists, records and objects of sets;
* `FuzzySet.readsBack`, `Variable.readsBack`: the shapes of sets and variables;
* `persistence`: what is valid is read back iff its values are finite.
-/

namespace FuzzyControl

open Results

/-! ## 1. Shapes and their parts -/

namespace Json

variable {α β : Type} {write : α → Json} {read : Json → Reading α} {p : α → Prop}

/-- What is written is read as what it was where `p` holds, and is refused elsewhere. -/
def ReadsBack (write : α → Json) (read : Json → Reading α) (p : α → Prop) : Prop :=
  ∀ a b, read (write a) = .ok b ↔ p a ∧ b = a

theorem readsBack_number : ReadsBack ofFloat asNumber fun x => x.isFinite = true := by
  intro x y
  unfold ofFloat
  split
  · rename_i hx
    show Except.ok x = .ok y ↔ _
    rw [Except.ok.injEq, eq_comm]
    exact (and_iff_right hx).symm
  · rename_i hx
    exact ⟨nofun, fun h => absurd h.1 hx⟩

theorem readsBack_string : ReadsBack .string asString fun _ => True := by
  intro s t
  show Except.ok s = .ok t ↔ _
  rw [Except.ok.injEq, eq_comm, true_and]

/-- A list is read back iff each of its items is. -/
theorem ReadsBack.list (h : ReadsBack write read p) :
    ReadsBack (fun xs => .array (xs.map write)) (asList read) fun xs => ∀ x ∈ xs, p x := by
  intro xs ys
  show (xs.map write).mapM read = .ok ys ↔ _
  rw [List.mapM_map, mapM_eq_ok_iff]
  have hitem : (fun x y => (read ∘ write) x = .ok y) = fun x y => p x ∧ x = y := by
    funext x y
    rw [Function.comp_apply, h x y, eq_comm (a := y)]
  rw [hitem, List.forall₂_and_left, List.forall₂_eq_eq_eq, eq_comm (a := ys)]

/-- A record that is written with its two fields is read back iff both are. -/
theorem ReadsBack.fields2 {write' : β → Json} {read' : Json → Reading β} {q : β → Prop}
    (h : ReadsBack write read p) (h' : ReadsBack write' read' q) {first second : String}
    (hne : first ≠ second) (a : α) (b : β) (x : Option α × Option β) :
    fields2 first read second read' (.object [(some first, write a), (some second, write' b)]) =
        .ok x ↔ (p a ∧ q b) ∧ x = (some a, some b) := by
  have hfields : Json.fields2 first read second read'
      (.object [(some first, write a), (some second, write' b)]) =
      (read (write a) >>= fun a => read' (write' b) >>= fun b => pure (some a, some b)) := by
    cases hv : read (write a) <;> cases hw : read' (write' b) <;>
      simp [Json.fields2, recordOf, required, once, hv, hw, Ne.symm hne, bind, Except.bind, pure,
        Except.pure, Except.map]
  rw [hfields]
  simp only [bind_eq_ok_iff, pure_eq_ok_iff, h a _, h' b _]
  constructor
  · rintro ⟨_, ⟨ha, rfl⟩, _, ⟨hb, rfl⟩, rfl⟩
    exact ⟨⟨ha, hb⟩, rfl⟩
  · rintro ⟨⟨ha, hb⟩, rfl⟩
    exact ⟨a, ⟨ha, rfl⟩, b, ⟨hb, rfl⟩, rfl⟩

end Json

open Json (ReadsBack readsBack_number readsBack_string)

/-! ## 2. Sets -/

theorem Sample.readsBack : ReadsBack Sample.toJson Sample.ofJson fun s =>
    s.value.isFinite = true ∧ s.membership.isFinite = true := by
  intro s t
  have hfields := readsBack_number.fields2 readsBack_number
    (show "value" ≠ "membership" by decide) s.value s.membership
  unfold Sample.ofJson Sample.toJson
  rw [bind_eq_ok_iff]
  constructor
  · rintro ⟨x, hx, h⟩
    obtain ⟨hp, rfl⟩ := (hfields x).1 hx
    exact ⟨hp, pure_eq_ok_iff.1 h⟩
  · rintro ⟨hp, rfl⟩
    exact ⟨_, (hfields _).2 ⟨hp, rfl⟩, rfl⟩

namespace FuzzySet

/-- All values of a set are finite. -/
def FiniteGrid (s : FuzzySet) : Prop := ∀ x ∈ s.grid, x.isFinite = true

theorem readsBack : ReadsBack FuzzySet.toJson FuzzySet.ofJson fun s => s.Valid ∧ s.FiniteGrid := by
  intro s t
  have hfields := readsBack_string.fields2 Sample.readsBack.list
    (show "name" ≠ "values" by decide) s.name s.samples
  unfold FuzzySet.ofJson FuzzySet.toJson
  rw [bind_eq_ok_iff]
  constructor
  · rintro ⟨x, hx, h⟩
    obtain ⟨⟨-, hfinite⟩, rfl⟩ := (hfields x).1 hx
    obtain ⟨hvalid, rfl⟩ := (ofSamples_eq_ok_iff _ _ _).1 (Json.checked_eq_ok_iff.1 h)
    exact ⟨⟨hvalid, List.forall_mem_map.2 fun p hp => (hfinite p hp).1⟩, rfl⟩
  · rintro ⟨⟨hvalid, hfinite⟩, rfl⟩
    have hsamples : ∀ p ∈ t.samples, p.value.isFinite = true ∧ p.membership.isFinite = true :=
      fun p hp => ⟨hfinite _ (List.mem_map_of_mem hp),
        Double.isFinite_of_inUnit (hvalid.inUnit_samples p hp)⟩
    exact ⟨_, (hfields _).2 ⟨⟨trivial, hsamples⟩, rfl⟩,
      Json.checked_eq_ok_iff.2 ((ofSamples_eq_ok_iff _ _ _).2 ⟨hvalid, rfl⟩)⟩

end FuzzySet

/-! ## 3. Variables -/

/-- A set that is read back is filed under its key. -/
theorem Json.file_set_eq_ok_iff {before after : Registry FuzzySet} {e : String × FuzzySet} :
    (do return before.insert (← required (some e.1)) (← FuzzySet.ofJson e.2.toJson) :
        Reading (Registry FuzzySet)) = .ok after ↔
      (e.2.Valid ∧ e.2.FiniteGrid) ∧ after = before.insert e.1 e.2 := by
  show (FuzzySet.ofJson e.2.toJson >>= fun s => pure (before.insert e.1 s)) = .ok after ↔ _
  simp only [bind_eq_ok_iff, pure_eq_ok_iff, FuzzySet.readsBack e.2 _]
  constructor
  · rintro ⟨_, ⟨hp, rfl⟩, rfl⟩
    exact ⟨hp, rfl⟩
  · rintro ⟨hp, rfl⟩
    exact ⟨e.2, ⟨hp, rfl⟩, rfl⟩

/-- Sets with new keys are filed one after the other, behind those that were filed before. -/
theorem Json.foldlM_sets_eq_ok_iff {es : List (String × FuzzySet)}
    {before after : Registry FuzzySet} (hnodup : ((before.entries ++ es).map Prod.fst).Nodup) :
    (es.map fun e => (some e.1, e.2.toJson)).foldlM (fun sets (key, v) => do
        return Registry.insert sets (← required key) (← FuzzySet.ofJson v)) before = .ok after ↔
      (∀ e ∈ es, e.2.Valid ∧ e.2.FiniteGrid) ∧ after.entries = before.entries ++ es := by
  induction es generalizing before with
  | nil =>
    rw [List.map_nil, List.foldlM_nil, pure_eq_ok_iff, List.append_nil]
    exact ⟨fun h => ⟨nofun, congrArg Registry.entries h⟩, fun h => Registry.ext h.2⟩
  | cons e es ih =>
    have hnew : e.1 ∉ before.entries.map Prod.fst := by
      rw [List.map_append, List.nodup_append] at hnodup
      exact fun hmem => hnodup.2.2 e.1 hmem e.1 (by simp) rfl
    have hentries : (before.insert e.1 e.2).entries = before.entries ++ [e] :=
      Registry.putIn_of_not_mem e.2 hnew
    have ih' := @ih (before.insert e.1 e.2)
    rw [hentries, List.append_assoc] at ih'
    rw [List.map_cons, List.foldlM_cons, bind_eq_ok_iff, List.forall_mem_cons]
    constructor
    · rintro ⟨next, hnext, h⟩
      obtain ⟨hp, rfl⟩ := file_set_eq_ok_iff.1 hnext
      obtain ⟨hall, hafter⟩ := (ih' hnodup).1 h
      exact ⟨⟨hp, hall⟩, hafter⟩
    · rintro ⟨⟨hp, hall⟩, hafter⟩
      exact ⟨_, file_set_eq_ok_iff.2 ⟨hp, rfl⟩, (ih' hnodup).2 ⟨hall, hafter⟩⟩

/-- The sets of a registry are read back under their keys. -/
theorem Json.readsBack_sets : ReadsBack
    (fun sets : Registry FuzzySet => .object (sets.entries.map fun e => (some e.1, e.2.toJson)))
    asSets fun sets => ∀ s ∈ sets.values, s.Valid ∧ s.FiniteGrid := by
  intro sets after
  have hfold := @foldlM_sets_eq_ok_iff sets.entries .empty after sets.nodup
  refine hfold.trans ?_
  show _ ↔ (∀ s ∈ sets.entries.map Prod.snd, s.Valid ∧ s.FiniteGrid) ∧ after = sets
  rw [List.forall_mem_map]
  exact and_congr_right fun _ => ⟨fun h => Registry.ext h, fun h => congrArg Registry.entries h⟩

namespace Variable

theorem readsBack : ReadsBack Variable.toJson Variable.ofJson fun v =>
    ∀ s ∈ v.sets.values, s.Valid ∧ s.FiniteGrid := by
  intro v w
  have hfields := readsBack_string.fields2 Json.readsBack_sets
    (show "name" ≠ "sets" by decide) v.name v.sets
  unfold Variable.ofJson Variable.toJson
  rw [bind_eq_ok_iff]
  constructor
  · rintro ⟨x, hx, h⟩
    obtain ⟨⟨-, hsets⟩, rfl⟩ := (hfields x).1 hx
    have hmade := Json.checked_eq_ok_iff.1 h
    exact ⟨hsets, Except.ok.inj (hmade.symm.trans v.ofRegistry_sets)⟩
  · rintro ⟨hsets, rfl⟩
    exact ⟨_, (hfields _).2 ⟨⟨trivial, hsets⟩, rfl⟩,
      Json.checked_eq_ok_iff.2 w.ofRegistry_sets⟩

end Variable

/-! ## 4. What is valid -/

/-- **Valid sets, and variables of valid sets, are read back iff their values are finite.** What is
read is then equal to what was written, with the sets of a variable in the same order; otherwise it
is refused. -/
theorem persistence (s : FuzzySet) (v : Variable) (hs : s.Valid)
    (hv : ∀ t ∈ v.sets.values, t.Valid) :
    (∀ t, FuzzySet.ofJson s.toJson = .ok t ↔ s.FiniteGrid ∧ t = s) ∧
    ∀ w, Variable.ofJson v.toJson = .ok w ↔ (∀ t ∈ v.sets.values, t.FiniteGrid) ∧ w = v := by
  refine ⟨fun t => ?_, fun w => ?_⟩
  · exact (FuzzySet.readsBack s t).trans (and_congr_left fun _ => and_iff_right hs)
  · refine (Variable.readsBack v w).trans (and_congr_left fun _ => ?_)
    exact forall₂_congr fun t ht => and_iff_right (hv t ht)

/-- It is hot from 0 to 30 degrees. -/
def hot : FuzzySet := ⟨"hot", [⟨0, 0⟩, ⟨30, 1⟩]⟩

/-- How warm it is. -/
def warmth : Variable where
  name := "warmth"
  sets := ⟨[("hot", hot), ("cold", ⟨"cold", [⟨0, 1⟩, ⟨30, 0⟩]⟩)], by simp⟩
  filed := by simp [Registry.FiledBy, hot]

/-- A set is read back, and a variable with both its sets in their order. -/
theorem persistence_warmth : hot.Valid ∧ (∀ t ∈ warmth.sets.values, t.Valid) ∧
    FuzzySet.ofJson hot.toJson = .ok hot ∧ Variable.ofJson warmth.toJson = .ok warmth := by
  have hhot : hot.Valid := by decide
  have hvalid : ∀ t ∈ warmth.sets.values, t.Valid := by decide
  have hfinite : ∀ t ∈ warmth.sets.values, t.FiniteGrid := by
    unfold FuzzySet.FiniteGrid
    decide
  obtain ⟨hset, hvariable⟩ := persistence hot warmth hhot hvalid
  exact ⟨hhot, hvalid, (hset hot).2 ⟨hfinite hot List.mem_cons_self, rfl⟩,
    (hvariable warmth).2 ⟨hfinite, rfl⟩⟩

/-- A set with an infinite value. -/
def openSet : FuzzySet := ⟨"Open", [⟨0, 0⟩, ⟨1 / 0, 1⟩]⟩

/-- **A set with an infinite value is accepted, and lost when it is written.** -/
theorem openSet_lost : FuzzySet.ofSamples "Open" openSet.samples = .ok openSet ∧
    ∀ t, FuzzySet.ofJson openSet.toJson ≠ .ok t :=
  ⟨rfl, fun _ h => nomatch h⟩

end FuzzyControl
