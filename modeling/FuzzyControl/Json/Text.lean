import FuzzyControl.Json.Basic
import FuzzyControl.Decimal.Nearest

/-!
# JSON values of texts

Every text is read as a value: up to the place where it stops being JSON, which the value holds as
its broken part. So whoever takes the value apart from left to right meets what stands before that
place first.

* `scanString`: the pieces of a string, and `assemble`: the characters they make;
* `ofNumber`: a number;
* `ofText`: the value of a text, and whether nothing but blanks follows it.
-/

namespace FuzzyControl.Json

/-! ## 1. Strings -/

/-- A piece of a string: a character, or a UTF-16 unit given by its number. -/
inductive Piece where
  | char (c : Char)
  | unit (n : Nat)

/-- The value of a hexadecimal digit. -/
def hexDigit? (c : Char) : Option Nat :=
  if '0' ≤ c ∧ c ≤ '9' then some (c.toNat - 48)
  else if 'a' ≤ c ∧ c ≤ 'f' then some (c.toNat - 87)
  else if 'A' ≤ c ∧ c ≤ 'F' then some (c.toNat - 55)
  else none

/-- The unit of four hexadecimal digits. -/
def unit? (a b c d : Char) : Option Nat := do
  let high := (← hexDigit? a) * 16 + (← hexDigit? b)
  let low := (← hexDigit? c) * 16 + (← hexDigit? d)
  return high * 256 + low

/-- The character that a letter after a backslash stands for. -/
def escaped? : Char → Option Char
  | '"' => some '"'
  | '\\' => some '\\'
  | '/' => some '/'
  | 'b' => some '\x08'
  | 'f' => some '\x0c'
  | 'n' => some '\n'
  | 'r' => some '\r'
  | 't' => some '\t'
  | _ => none

/-- The pieces of a string behind its opening quote, and what follows the closing one. A control
character has to be escaped. -/
def scanString : List Char → Option (List Piece × List Char)
  | [] => none
  | '"' :: rest => some ([], rest)
  | '\\' :: 'u' :: a :: b :: c :: d :: rest => do
      let n ← unit? a b c d
      let (ps, tail) ← scanString rest
      return (.unit n :: ps, tail)
  | '\\' :: e :: rest => do
      let c ← escaped? e
      let (ps, tail) ← scanString rest
      return (.char c :: ps, tail)
  | c :: rest =>
      if c.toNat < 0x20 ∨ c = '\\' then none
      else do
        let (ps, tail) ← scanString rest
        return (.char c :: ps, tail)

/-- The characters that pieces make. The first unit of a surrogate pair is followed by the second,
and the second by itself stands for nothing. -/
def assemble : List Piece → Option (List Char)
  | [] => some []
  | .char c :: rest => (assemble rest).map (c :: ·)
  | .unit n :: rest =>
      if 0xDC00 ≤ n ∧ n ≤ 0xDFFF then none
      else if 0xD800 ≤ n ∧ n ≤ 0xDBFF then
        match rest with
        | .unit k :: rest' =>
            if 0xDC00 ≤ k ∧ k ≤ 0xDFFF then
              (assemble rest').map
                (Char.ofNat (0x10000 + (n - 0xD800) * 0x400 + (k - 0xDC00)) :: ·)
            else none
        | _ => none
      else (assemble rest).map (Char.ofNat n :: ·)

/-! ## 2. Numbers -/

/-- The digits at the front of a text, of which there has to be one, and what follows them. -/
def digits? (cs : List Char) : Option (List Char × List Char) :=
  let ds := cs.takeWhile Char.isDigit
  if ds = [] then none else some (ds, cs.dropWhile Char.isDigit)

/-- The decimal places behind a point, if there is one. -/
def places? : List Char → Option (List Char × List Char)
  | '.' :: cs => digits? cs
  | cs => some ([], cs)

/-- The exponent, if there is one; else zero. -/
def exponent? : List Char → Option (Int × List Char)
  | e :: cs =>
      if e = 'e' ∨ e = 'E' then
        match cs with
        | '-' :: cs => (digits? cs).map fun (ds, rest) => (-(Decimal.ofDigits ds : Int), rest)
        | '+' :: cs => (digits? cs).map fun (ds, rest) => ((Decimal.ofDigits ds : Int), rest)
        | cs => (digits? cs).map fun (ds, rest) => ((Decimal.ofDigits ds : Int), rest)
      else some (0, e :: cs)
  | [] => some (0, [])

/-- A number, which has no leading zero, and what follows it. -/
def ofNumber (cs : List Char) : Option (Json × List Char) := do
  let (negative, cs) := match cs with
    | '-' :: cs => (true, cs)
    | cs => (false, cs)
  let (whole, cs) ← digits? cs
  if whole.head? = some '0' ∧ whole.length ≠ 1 then none
  else
    let (places, cs) ← places? cs
    let (exponent, rest) ← exponent? cs
    match Decimal.ofWritten? negative whole places exponent with
    | some x => return (.number x, rest)
    | none => return (.unusable, rest)

/-! ## 3. Values -/

/-- A text behind the blanks at its front. -/
def skipBlanks (cs : List Char) : List Char :=
  cs.dropWhile fun c => c = ' ' ∨ c = '\t' ∨ c = '\n' ∨ c = '\r'

/-- The string behind an opening quote, and what follows it. -/
def ofString (cs : List Char) : Json × Option (List Char) :=
  match scanString cs with
  | none => (.broken, none)
  | some (pieces, rest) =>
      match assemble pieces with
      | some s => (.string (String.ofList s), some rest)
      | none => (.unusable, some rest)

/-- The key of a member with the colon behind it, and what follows. A string that stands for nothing
leaves the member without a key. -/
def key? (cs : List Char) : Option (Option String × List Char) :=
  match skipBlanks cs with
  | '"' :: cs => do
      let (pieces, rest) ← scanString cs
      match skipBlanks rest with
      | ':' :: rest => some ((assemble pieces).map String.ofList, rest)
      | _ => none
  | _ => none

mutual

/-- The value at the front of a text and what follows it; nothing follows a value with a broken
part. Every call is made on a shorter text, or opens an array or object with one, so `fuel` above
the length of the text is never used up. -/
def valueOf : Nat → List Char → Json × Option (List Char)
  | 0, _ => (.broken, none)
  | fuel + 1, cs =>
      match skipBlanks cs with
      | 'n' :: 'u' :: 'l' :: 'l' :: rest => (.null, some rest)
      | 't' :: 'r' :: 'u' :: 'e' :: rest => (.bool true, some rest)
      | 'f' :: 'a' :: 'l' :: 's' :: 'e' :: rest => (.bool false, some rest)
      | '"' :: rest => ofString rest
      | '[' :: rest =>
          match skipBlanks rest with
          | ']' :: rest => (.array [], some rest)
          | rest =>
              let (items, rest) := itemsOf fuel rest
              (.array items, rest)
      | '\x7b' :: rest =>
          match skipBlanks rest with
          | '\x7d' :: rest => (.object [], some rest)
          | rest =>
              let (members, rest) := membersOf fuel rest
              (.object members, rest)
      | rest =>
          match ofNumber rest with
          | some (v, rest) => (v, some rest)
          | none => (.broken, none)

/-- The items of an array from the next one on, and what follows the array. -/
def itemsOf : Nat → List Char → List Json × Option (List Char)
  | 0, _ => ([.broken], none)
  | fuel + 1, cs =>
      match valueOf fuel cs with
      | (v, none) => ([v], none)
      | (v, some rest) =>
          match skipBlanks rest with
          | ',' :: rest =>
              let (vs, rest) := itemsOf fuel rest
              (v :: vs, rest)
          | ']' :: rest => ([v], some rest)
          | _ => ([v, .broken], none)

/-- The members of an object from the next one on, and what follows the object. -/
def membersOf : Nat → List Char → List (Option String × Json) × Option (List Char)
  | 0, _ => ([(none, .broken)], none)
  | fuel + 1, cs =>
      match key? cs with
      | none => ([(none, .broken)], none)
      | some (key, rest) =>
          match valueOf fuel rest with
          | (v, none) => ([(key, v)], none)
          | (v, some rest) =>
              match skipBlanks rest with
              | ',' :: rest =>
                  let (ms, rest) := membersOf fuel rest
                  ((key, v) :: ms, rest)
              | '\x7d' :: rest => ([(key, v)], some rest)
              | _ => ([(key, v), (none, .broken)], none)

end

/-- The value of a text, and whether the text is that value and nothing else but blanks. -/
def ofText (text : String) : Json × Bool :=
  let cs := text.toList
  match valueOf (cs.length + 1) cs with
  | (v, none) => (v, false)
  | (v, some rest) => (v, (skipBlanks rest).isEmpty)

end FuzzyControl.Json
