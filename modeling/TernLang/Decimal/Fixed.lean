import TernLang.Binary.Float

/-! Decimal text with a fixed number of places. The exact binary value is rounded
once, a half-way case to the even neighbour. -/
namespace TernLang.Decimal

/-- `numerator / denominator` rounded to the nearest integer, ties to even. -/
def roundRatio (numerator denominator : Nat) : Nat :=
  let quotient := numerator / denominator
  let twice := 2 * (numerator % denominator)
  if twice > denominator || (twice == denominator && quotient % 2 == 1) then quotient + 1 else quotient

/-- Put a point before the last `places` digits, padding with zeros in front. -/
def withPoint (places count : Nat) : String :=
  let digits := (toString count).toList
  let padded := List.replicate (places + 1 - digits.length) '0' ++ digits
  let whole := padded.length - places
  if places = 0 then String.ofList padded
  else String.ofList (padded.take whole) ++ "." ++ String.ofList (padded.drop whole)

def fixed (places : Nat) (x : Binary64) : String :=
  match x.decode with
  | .nan .. => "NaN"
  | .infinite negative => if negative then "-inf" else "inf"
  | .finite negative mantissa scale =>
    let (n, d) := Binary.scaled mantissa scale
    (if negative then "-" else "") ++ withPoint places (roundRatio (n * tenPow places) d)

end TernLang.Decimal
