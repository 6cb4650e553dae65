import FuzzyControl.Registry
import FuzzyControl.FuzzySet.Basic

/-!
# Linguistic variables

A linguistic variable is a quantity described by fuzzy sets, its values in words. The sets have
distinct names and keep the order in which they were added.

* `add`: one more set, if its name is new;
* `ofSets`: a variable with a list of sets;
* `ofRegistry`: a variable with sets under given keys, if every key is the name of its set.
-/

namespace FuzzyControl

/-- A name and sets filed under their own names. -/
structure Variable where
  name : String
  sets : Registry FuzzySet
  filed : sets.FiledBy FuzzySet.name

namespace Variable

@[ext] theorem ext {v w : Variable} (hn : v.name = w.name) (hs : v.sets = w.sets) : v = w := by
  cases v; cases w; cases hn; cases hs; rfl

instance : DecidableEq Variable := fun v w =>
  decidable_of_iff (v.name = w.name ∧ v.sets = w.sets)
    ⟨fun h => Variable.ext h.1 h.2, fun h => h ▸ ⟨rfl, rfl⟩⟩

/-- The variable of a name without sets. -/
def empty (name : String) : Variable := ⟨name, .empty, Registry.filedBy_empty _⟩

/-- The variable with one more set, last in order. -/
def add (v : Variable) (s : FuzzySet) : Except Fault Variable :=
  if h : s.name ∈ v.sets.names then .error (.duplicateSet s.name)
  else .ok { v with sets := v.sets.push s.name s h, filed := v.filed.push s h }

/-- A variable with a list of sets. -/
def ofSets (name : String) (sets : List FuzzySet) : Except Fault Variable :=
  sets.foldlM add (empty name)

/-- A variable with sets under given keys. -/
def ofRegistry (name : String) (sets : Registry FuzzySet) : Except Fault Variable :=
  match sets.misfiled? FuzzySet.name with
  | some (key, s) => .error (.invalidSet s.name (.misfiled key name))
  | none => ofSets name sets.values

/-- The set of a given name. -/
def get (v : Variable) (name : String) : Except Fault FuzzySet :=
  match v.sets.find? name with
  | some s => .ok s
  | none => .error (.noSuchSet name)

/-- Whether two variables have the same name and agreeing sets under the same names, in whatever
order. -/
def agrees (v w : Variable) : Bool :=
  v.name == w.name && v.sets.size == w.sets.size &&
    v.sets.entries.all fun e =>
      match w.sets.find? e.1 with
      | some s => e.2.agrees s
      | none => false

end Variable

end FuzzyControl
