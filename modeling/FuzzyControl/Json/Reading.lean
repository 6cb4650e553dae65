import FuzzyControl.Json.Text
import FuzzyControl.Fault.Basic

/-!
# Reading JSON values

What is common to reading the parts of a controller from JSON. A value is read from left to right,
and the first thing that does not fit refuses it: either the value has another shape than was asked
for, or a part of the right shape is at fault.

* `tagged`: one of a list of tags, as a string or as the only key of an object whose value is null;
* `fields2`, `fields3`: the fields of a record, which is an object, or an array of the fields in
  order; unknown fields are skipped, and a known one does not occur twice;
* `readText`: a whole text.
-/

namespace FuzzyControl.Json

/-- Why a value is refused. -/
inductive Refusal where
  /-- The text is not JSON, or not of the shape asked for. -/
  | misshapen
  /-- The shape is right, but what it stands for is at fault. -/
  | fault (f : Fault)

/-- What was read, or why it was refused. -/
abbrev Reading (α : Type) := Except Refusal α

/-- What an operation of the library makes of what was read. -/
def checked {α : Type} : Except Fault α → Reading α
  | .ok a => .ok a
  | .error f => .error (.fault f)

/-! ## 1. Simple values -/

/-- A number. -/
def asNumber : Json → Reading Float
  | .number x => .ok x
  | _ => .error .misshapen

/-- A string. -/
def asString : Json → Reading String
  | .string s => .ok s
  | _ => .error .misshapen

/-- A list of values, each of which is read. -/
def asList {α : Type} (read : Json → Reading α) : Json → Reading (List α)
  | .array items => items.mapM read
  | _ => .error .misshapen

/-- A tag: a string, or the only key of an object whose value is null. -/
def asTag : Json → Reading String
  | .string s => .ok s
  | .object [(some key, .null)] => .ok key
  | _ => .error .misshapen

/-- The one of `all` that has the tag which stands there. -/
def tagged {α : Type} (all : List α) (tag : α → String) (v : Json) : Reading α := do
  let t ← asTag v
  match all.find? fun a => tag a == t with
  | some a => return a
  | none => .error .misshapen

/-! ## 2. Records -/

/-- A key or a field that has to be there. -/
def required {α : Type} : Option α → Reading α
  | some a => .ok a
  | none => .error .misshapen

/-- The items of an array as the fields of a record. An item after the last field has no key. -/
def alongside : List String → List Json → List (Option String × Json)
  | _, [] => []
  | [], v :: vs => (none, v) :: alongside [] vs
  | name :: names, v :: vs => (some name, v) :: alongside names vs

/-- The members of a record with the given fields. -/
def recordOf (fields : List String) : Json → Reading (List (Option String × Json))
  | .object members => .ok members
  | .array items => .ok (alongside fields items)
  | _ => .error .misshapen

/-- The content of a field that was not read before. -/
def once {α : Type} (before : Option α) (reading : Reading α) : Reading (Option α) :=
  match before with
  | some _ => .error .misshapen
  | none => reading.map some

/-- A value of an unknown field, which is skipped. -/
def skip (v : Json) : Reading Unit := if v.intact then .ok () else .error .misshapen

/-- The fields of a record of two, as far as it has them. -/
def fields2 {α β : Type} (first : String) (readFirst : Json → Reading α) (second : String)
    (readSecond : Json → Reading β) (v : Json) : Reading (Option α × Option β) := do
  let members ← recordOf [first, second] v
  members.foldlM (fun (a, b) (key, w) => do
    let key ← required key
    if key = first then return (← once a (readFirst w), b)
    else if key = second then return (a, ← once b (readSecond w))
    else do
      skip w
      return (a, b)) (none, none)

/-- The fields of a record of three, as far as it has them. -/
def fields3 {α β γ : Type} (first : String) (readFirst : Json → Reading α) (second : String)
    (readSecond : Json → Reading β) (third : String) (readThird : Json → Reading γ) (v : Json) :
    Reading (Option α × Option β × Option γ) := do
  let members ← recordOf [first, second, third] v
  members.foldlM (fun (a, b, c) (key, w) => do
    let key ← required key
    if key = first then return (← once a (readFirst w), b, c)
    else if key = second then return (a, ← once b (readSecond w), c)
    else if key = third then return (a, b, ← once c (readThird w))
    else do
      skip w
      return (a, b, c)) (none, none, none)

/-- What a whole text is read as. -/
def readText {α : Type} (read : Json → Reading α) (text : String) : Reading α := do
  let (v, whole) := ofText text
  let a ← read v
  if whole then return a else .error .misshapen

end FuzzyControl.Json
