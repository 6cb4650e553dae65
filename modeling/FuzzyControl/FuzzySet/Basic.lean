import FuzzyControl.Sample
import FuzzyControl.Scalar
import FuzzyControl.Fault.Basic

/-!
# Fuzzy sets

A fuzzy set is a name and a sampled membership function. The ways of making one from outside check
the samples: whatever `ofSamples`, `ofPoints` and `ofFunction` accept is `Valid`.

* `flaw?`: the first thing wrong with a list of samples: a sample that is no grade, else two
  neighbours that do not ascend;
* `assign`: other samples for a set, in place; `resample`: the same for a set that is not held;
* `resample_eq_ok_iff`: samples are accepted iff they are valid, and then they are kept as given.
-/

namespace FuzzyControl

/-- A named membership function, sampled at a list of values. -/
structure FuzzySet where
  name : String
  samples : List Sample
  deriving DecidableEq

namespace FuzzySet

/-! ## 1. Making sets -/

/-- The set of a name without samples. -/
def empty (name : String) : FuzzySet := ⟨name, []⟩

/-- A set whose samples make a membership function. -/
def Valid (s : FuzzySet) : Prop := Sample.Valid s.samples

instance (s : FuzzySet) : Decidable s.Valid := inferInstanceAs (Decidable (Sample.Valid _))

/-- The first thing wrong with a list of samples. -/
def flaw? (samples : List Sample) : Option SetFlaw :=
  match samples.find? fun s => !s.isGrade with
  | some s => some (.noGrade s.value s.membership)
  | none => (Sample.descent? samples).map fun p => .descent p.1 p.2

theorem flaw?_eq_none_iff (samples : List Sample) :
    flaw? samples = none ↔ Sample.Valid samples := by
  unfold flaw? Sample.Valid
  cases h : samples.find? fun s => !s.isGrade with
  | some s =>
    have hs := List.find?_some h
    have hm := List.mem_of_find?_eq_some h
    simp only [reduceCtorEq, false_iff]
    intro hv
    simp [hv.1 s hm] at hs
  | none =>
    have hall : ∀ s ∈ samples, s.isGrade = true := by simpa using h
    simpa using fun _ => hall

/-- Gives the set that is held other samples, if they make a membership function. The samples are
checked before the set is changed. -/
def assign (samples : List Sample) : ExceptT Fault (StateM FuzzySet) Unit := do
  match flaw? samples with
  | some flaw => throw (.invalidSet (← get).name flaw)
  | none => modify fun s => { s with samples }

/-- The set with other samples, if they make a membership function. -/
def resample (s : FuzzySet) (samples : List Sample) : Except Fault FuzzySet :=
  match (assign samples).run.run s with
  | (.ok (), t) => .ok t
  | (.error fault, _) => .error fault

/-- The set of the given samples, which have to be in order. -/
def ofSamples (name : String) (samples : List Sample) : Except Fault FuzzySet :=
  (empty name).resample samples

/-- The set of the given points, in any order. -/
def ofPoints (name : String) (points : List Sample) : Except Fault FuzzySet :=
  ofSamples name (Sample.sortByValue points)

/-- The set of a function over a grid; what the function gives is moved into the unit interval. -/
def ofFunction (name : String) (grid : List Float) (f : Float → Float) : Except Fault FuzzySet :=
  ofPoints name (grid.map fun x => ⟨x, clampUnit (f x)⟩)

theorem assign_of_flaw {samples : List Sample} {flaw : SetFlaw} (h : flaw? samples = some flaw)
    (s : FuzzySet) : (assign samples).run.run s = (.error (.invalidSet s.name flaw), s) := by
  unfold assign
  rw [h]
  rfl

theorem assign_of_valid {samples : List Sample} (h : Sample.Valid samples) (s : FuzzySet) :
    (assign samples).run.run s = (.ok (), { s with samples }) := by
  unfold assign
  rw [(flaw?_eq_none_iff samples).2 h]
  rfl

/-- Samples are accepted iff they are valid, and are then kept as given. -/
theorem resample_eq_ok_iff (s : FuzzySet) (samples : List Sample) (t : FuzzySet) :
    s.resample samples = .ok t ↔ Sample.Valid samples ∧ t = ⟨s.name, samples⟩ := by
  unfold resample
  cases hf : flaw? samples with
  | none =>
    have hv := (flaw?_eq_none_iff samples).1 hf
    simp [assign_of_valid hv, hv, eq_comm]
  | some f =>
    have : ¬ Sample.Valid samples := fun hv => by simp [(flaw?_eq_none_iff samples).2 hv] at hf
    simp [assign_of_flaw hf, this]

theorem valid_of_resample {s t : FuzzySet} {samples : List Sample}
    (h : s.resample samples = .ok t) : t.Valid := by
  obtain ⟨hvalid, rfl⟩ := (resample_eq_ok_iff s samples t).1 h
  exact hvalid

theorem ofSamples_eq_ok_iff (name : String) (samples : List Sample) (s : FuzzySet) :
    ofSamples name samples = .ok s ↔ Sample.Valid samples ∧ s = ⟨name, samples⟩ :=
  resample_eq_ok_iff (empty name) samples s

/-! ## 2. Reading sets -/

/-- The values, in ascending order in a valid set. -/
def grid (s : FuzzySet) : List Float := s.samples.map Sample.value

/-- The memberships, in the order of the values. -/
def memberships (s : FuzzySet) : List Float := s.samples.map Sample.membership

/-- The values whose membership is above zero. -/
def support (s : FuzzySet) : List Float :=
  (s.samples.filter fun p => 0 < p.membership).map Sample.value

/-- The largest membership; zero without samples. -/
def height (s : FuzzySet) : Float := s.memberships.foldl greatest 0

/-- Whether some membership is one. -/
def isNormal (s : FuzzySet) : Bool := s.height == 1

/-- Whether two sets have the same name and agree at every sample, where the two zeros are
equal. -/
def agrees (s t : FuzzySet) : Bool :=
  s.name == t.name && s.samples.length == t.samples.length &&
    (s.samples.zip t.samples).all fun p => p.1.agrees p.2

end FuzzySet

end FuzzyControl
