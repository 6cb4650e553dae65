import FuzzyControl.Json.Reading
import FuzzyControl.Rule.Outline
import FuzzyControl.Variable
import FuzzyControl.Settings
import FuzzyControl.Defuzzifier

/-!
# The JSON shapes of sets, variables, rules and settings

Every shape has a writer `toJson` and a reader `ofJson`. What is read is checked as if it had been
made by the operations of the library:

* a set is read through `FuzzySet.ofSamples`, and a set within a variable before the rest of the
  variable;
* a variable is read through `Variable.ofRegistry`, its sets being filed under the keys of an
  object; a key that occurs again keeps its place and takes the later set;
* a rule is read through `Outline.toRule`, and written as its outline.
-/

namespace FuzzyControl

open Json (Reading fields2 fields3 required asNumber asString asList tagged checked)

/-! ## 1. Sets -/

/-- The shape of a sample. -/
def Sample.toJson (s : Sample) : Json :=
  .object [(some "value", Json.ofFloat s.value), (some "membership", Json.ofFloat s.membership)]

/-- The sample of a value. -/
def Sample.ofJson (v : Json) : Reading Sample := do
  let (value, membership) ← fields2 "value" asNumber "membership" asNumber v
  return ⟨← required value, ← required membership⟩

/-- The shape of a set. -/
def FuzzySet.toJson (s : FuzzySet) : Json :=
  .object [(some "name", .string s.name), (some "values", .array (s.samples.map Sample.toJson))]

/-- The set of a value; its samples may be left out. -/
def FuzzySet.ofJson (v : Json) : Reading FuzzySet := do
  let (name, samples) ← fields2 "name" asString "values" (asList Sample.ofJson) v
  checked (FuzzySet.ofSamples (← required name) (samples.getD []))

/-! ## 2. Variables -/

/-- The sets of an object, filed under its keys. -/
def Json.asSets : Json → Reading (Registry FuzzySet)
  | .object members =>
      members.foldlM (fun sets (key, v) => do
        return sets.insert (← required key) (← FuzzySet.ofJson v)) .empty
  | _ => .error .misshapen

/-- The shape of a variable. -/
def Variable.toJson (v : Variable) : Json :=
  .object [(some "name", .string v.name),
    (some "sets", .object (v.sets.entries.map fun e => (some e.1, e.2.toJson)))]

/-- The variable of a value; its sets may be left out. -/
def Variable.ofJson (v : Json) : Reading Variable := do
  let (name, sets) ← fields2 "name" asString "sets" Json.asSets v
  checked (Variable.ofRegistry (← required name) (sets.getD .empty))

/-! ## 3. Rules -/

/-- The shape of a connective. -/
def Connective.toJson (c : Connective) : Json := .string c.keyword

/-- The connective of a value. -/
def Connective.ofJson : Json → Reading Connective := tagged [.and, .or] Connective.keyword

/-- The shape of a proposition. -/
def Proposition.toJson (p : Proposition) : Json :=
  .object [(some "variable", .string p.subject), (some "set", .string p.set)]

/-- The proposition of a value. -/
def Proposition.ofJson (v : Json) : Reading Proposition := do
  let (subject, set) ← fields2 "variable" asString "set" asString v
  return ⟨← required subject, ← required set⟩

/-- The shape of an outline. -/
def Outline.toJson (o : Outline) : Json :=
  .object [(some "operator", o.connective.toJson),
    (some "antecedents", .array (o.antecedents.map fun parts => .array (parts.map .string))),
    (some "consequent", .array (o.consequent.map .string))]

/-- The outline of a value. -/
def Outline.ofJson (v : Json) : Reading Outline := do
  let (connective, antecedents, consequent) ←
    fields3 "operator" Connective.ofJson "antecedents" (asList (asList asString))
      "consequent" (asList asString) v
  return ⟨← required connective, ← required antecedents, ← required consequent⟩

/-- The shape of a rule. -/
def Rule.toJson (r : Rule) : Json := (Outline.ofRule r).toJson

/-- The rule of a value. -/
def Rule.ofJson (v : Json) : Reading Rule := do
  let o ← Outline.ofJson v
  checked o.toRule

/-! ## 4. Settings and tags -/

/-- The shape of a way of looking up. -/
def Lookup.toJson (l : Lookup) : Json := .string l.tag

/-- The way of looking up of a value. -/
def Lookup.ofJson : Json → Reading Lookup := tagged Lookup.all Lookup.tag

/-- The shape of a policy for zero height. -/
def ZeroHeight.toJson (z : ZeroHeight) : Json := .string z.tag

/-- The policy for zero height of a value. -/
def ZeroHeight.ofJson : Json → Reading ZeroHeight := tagged ZeroHeight.all ZeroHeight.tag

/-- The shape of settings. -/
def Settings.toJson (s : Settings) : Json :=
  .object [(some "lookup", s.lookup.toJson), (some "zero_height", s.zeroHeight.toJson)]

/-- The settings of a value; either one may be left to its default. -/
def Settings.ofJson (v : Json) : Reading Settings := do
  let (lookup, zeroHeight) ← fields2 "lookup" Lookup.ofJson "zero_height" ZeroHeight.ofJson v
  return ⟨lookup.getD .exact, zeroHeight.getD .zero⟩

/-- The shape of a defuzzifier. -/
def Defuzzifier.toJson (m : Defuzzifier) : Json := .string m.tag

/-- The defuzzifier of a value. -/
def Defuzzifier.ofJson : Json → Reading Defuzzifier := tagged Defuzzifier.all Defuzzifier.tag

/-- The shape of a kind of inference. -/
def Scheme.toJson (s : Scheme) : Json := .string s.tag

/-- The kind of inference of a value. -/
def Scheme.ofJson : Json → Reading Scheme := tagged [.mamdani] Scheme.tag

/-- The role of a value. -/
def Role.ofJson : Json → Reading Role := tagged [.input, .output] Role.tag

/-- The kind of fault of a value. -/
def Fault.Code.ofJson : Json → Reading Fault.Code := tagged Fault.Code.all Fault.Code.tag

end FuzzyControl
