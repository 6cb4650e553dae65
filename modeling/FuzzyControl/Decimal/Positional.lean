import FuzzyControl.Decimal.Shortest

/-!
# Doubles in positional notation

How a double is written in a sentence: the digits of its shortest decimal, always in positional
notation, with a point only where there are decimal places. Negative zero keeps its sign, the
infinities are `inf` and `-inf`, and what is not a number is `NaN`.
-/

namespace FuzzyControl.Decimal

/-- The number `digits * 10 ^ power` written out: zeros fill the places down to the point, and a
number below one has a zero before the point. -/
def positional (digits : Nat) (power : Int) : List Char :=
  let ds := Nat.toDigits 10 digits
  if 0 ≤ power then ds ++ List.replicate power.toNat '0'
  else
    let places := (-power).toNat
    let padded := List.replicate (places + 1 - ds.length) '0' ++ ds
    padded.take (padded.length - places) ++ '.' :: padded.drop (padded.length - places)

/-- A double as it is written in a sentence. -/
def text (x : Float) : String :=
  if x.isNaN then "NaN"
  else
    let bits := x.toBits.toNat
    let field := bits / Nat.pow 2 52 % Nat.pow 2 11
    let fraction := bits % Nat.pow 2 52
    let sign := if bits / Nat.pow 2 63 = 1 then ['-'] else []
    let size :=
      if field = 2047 then ['i', 'n', 'f']
      else if field = 0 ∧ fraction = 0 then ['0']
      else
        let (digits, power) := (Span.ofFields field fraction).shortest
        positional digits power
    String.ofList (sign ++ size)

end FuzzyControl.Decimal
