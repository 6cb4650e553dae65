/-!
# JSON values

A JSON value as it stands in a text: the members of an object keep their order, and a key may occur
more than once. A text can hold more than that:

* `unusable`: a value that is correctly written but stands for nothing, that is a number without a
  finite double or a string with half of a surrogate pair; it can only be skipped;
* a member without a key: its key is a string that stands for nothing; the object can be skipped,
  but whoever reads its members is stopped there;
* `broken`: the place where a text stops being JSON. Only the last item, or the value of the last
  member, on each level of a value is broken or has a broken part.
-/

namespace FuzzyControl

/-- A JSON value. -/
inductive Json where
  | null
  | bool (b : Bool)
  | number (x : Float)
  | string (s : String)
  | array (items : List Json)
  | object (members : List (Option String × Json))
  | unusable
  | broken

namespace Json

mutual

/-- Whether a value has no broken part. -/
def intact : Json → Bool
  | .array items => intactItems items
  | .object members => intactMembers members
  | .broken => false
  | _ => true

/-- Whether no item has a broken part. -/
def intactItems : List Json → Bool
  | [] => true
  | v :: rest => intact v && intactItems rest

/-- Whether no member has a broken part. -/
def intactMembers : List (Option String × Json) → Bool
  | [] => true
  | (_, v) :: rest => intact v && intactMembers rest

end

/-- The value of a double: infinities and what is not a number have none but `null`. -/
def ofFloat (x : Float) : Json := if x.isFinite then .number x else .null

end Json

end FuzzyControl
