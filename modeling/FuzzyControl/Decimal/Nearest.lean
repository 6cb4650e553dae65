/-!
# The double nearest to a decimal

A decimal is read as the double nearest to it, and one halfway between two doubles as the even one
of them. A decimal so large that no finite double is near has none; one too small for any double
but zero is zero, with its sign.

A written decimal may have any number of digits, of which only the first 768 are told apart.

* `nearest?`: the double of a mantissa and a power of ten;
* `limited`: the mantissa and the power of ten that a list of digits stands for;
* `ofWritten?`: the double of a decimal as it is written.
-/

namespace FuzzyControl.Decimal

/-! ## 1. Mantissas and powers of ten -/

/-- The size of `mantissa * 10 ^ exponent` as a double. Exponents far outside the range of doubles
are answered without computing the power. -/
def magnitude? (mantissa : Nat) (exponent : Int) : Option Float :=
  if mantissa = 0 then some 0
  else if 400 < exponent then none
  else if exponent + mantissa.log2 + 1 < -400 then some 0
  else
    let x := Float.ofScientific mantissa (exponent < 0) exponent.natAbs
    if x.isInf then none else some x

/-- The double nearest to a decimal, if it is finite. -/
def nearest? (negative : Bool) (mantissa : Nat) (exponent : Int) : Option Float :=
  (magnitude? mantissa exponent).map fun x => if negative then -x else x

/-! ## 2. Written decimals -/

/-- The number of a list of decimal digits. -/
def ofDigits (ds : List Char) : Nat := ds.foldl (fun n d => n * 10 + (d.toNat - 48)) 0

/-- How many digits of a decimal are told apart. No point halfway between two doubles needs more of
them, so on which side of it a decimal lies is settled by these and by whether any digit follows. -/
def digitLimit : Nat := 768

/-- The mantissa and the power of ten of digits that are followed by `exponent` more places. Behind
the digits that are told apart, a one stands for all the others. -/
def limited (digits : List Char) (exponent : Int) : Nat × Int :=
  if digits.length ≤ digitLimit then (ofDigits digits, exponent)
  else
    let others := digits.length - digitLimit
    (ofDigits (digits.take digitLimit ++ ['1']), exponent + (others - 1 : Nat))

/-- The double of a decimal with the digits `whole` before its point, the digits `places` behind it,
and a power of ten, if it is finite. Zeros at the front, and zeros at the end of the places, are not
counted as digits. Zeros at the end of the whole part are: if they go beyond the digits that are
told apart, a decimal halfway between two doubles is read as the one of larger size. -/
def ofWritten? (negative : Bool) (whole places : List Char) (exponent : Int) : Option Float :=
  let places := (places.reverse.dropWhile (· == '0')).reverse
  let digits := (whole ++ places).dropWhile (· == '0')
  let (mantissa, power) := limited digits (exponent - places.length)
  nearest? negative mantissa power

end FuzzyControl.Decimal
