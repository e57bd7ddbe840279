import TernLang.Binary.Float

/-! Decimal text of floating-point values: the fewest digits that read back as the
same value and, among those, the nearest; of two equally near the larger. -/
namespace TernLang.Decimal

/-- A positive binary value `mantissa * 2 ^ scale` and the reals that round to it. In units of
`2 ^ (scale - 2)` the value is `4 * mantissa`, the interval reaches `below` down and two up. -/
structure Cell where
  mantissa : Nat
  scale : Int
  below : Nat

/-- The interval below a power of two is half as wide. -/
def Cell.of (f : Binary.Format) (mantissa : Nat) (scale : Int) : Cell :=
  ⟨mantissa, scale, if mantissa = twoPow f.fraction then 1 else 2⟩

/-- Sign of the comparison of `units * 2 ^ (scale - 2)` with `count * 10 ^ place`. -/
def Cell.compare (cell : Cell) (units count : Nat) (place : Int) : Ordering :=
  let power := cell.scale - 2
  let left := units * twoPow power.toNat * tenPow (-place).toNat
  let right := count * tenPow place.toNat * twoPow (-power).toNat
  Ord.compare left right

/-- Whether `count * 10 ^ place` rounds to the value; the ends count for even mantissas. -/
def Cell.holds (cell : Cell) (count : Nat) (place : Int) : Bool :=
  let even := cell.mantissa % 2 == 0
  let atLeast := match cell.compare (4 * cell.mantissa - cell.below) count place with
    | .lt => true
    | .eq => even
    | .gt => false
  let atMost := match cell.compare (4 * cell.mantissa + 2) count place with
    | .gt => true
    | .eq => even
    | .lt => false
  atLeast && atMost

/-- How many whole units of `10 ^ place` the value has. -/
def Cell.floor (cell : Cell) (place : Int) : Nat :=
  let power := cell.scale - 2
  let left := 4 * cell.mantissa * twoPow power.toNat * tenPow (-place).toNat
  left / (tenPow place.toNat * twoPow (-power).toNat)

/-- The neighbour on the grid of `10 ^ place` that rounds to the value, if one does. -/
def Cell.onGrid (cell : Cell) (place : Int) : Option Nat :=
  let low := cell.floor place
  match cell.holds low place, cell.holds (low + 1) place with
  | false, false => none
  | true, false => some low
  | false, true => some (low + 1)
  | true, true =>
    -- The nearer of the two: compare the value with the point half-way between them.
    match cell.compare (8 * cell.mantissa) (2 * low + 1) place with
    | .lt => some low
    | _ => some (low + 1)

/-- Decimal exponent of the leading digit. -/
def Cell.magnitude (cell : Cell) : Int :=
  let power := cell.scale - 2
  let guess := ((4 * cell.mantissa).log2 + power) * 30103 / 100000
  let reaches (place : Int) : Bool := cell.compare (4 * cell.mantissa) 1 place != .lt
  if reaches (guess + 1) then guess + 1 else if reaches guess then guess else guess - 1

/-- Try grids of one digit, two digits, and so on. -/
def Cell.search (cell : Cell) (leading : Int) : Nat → Nat → Nat × Int
  | 0, digits => (cell.floor (leading - digits), leading - digits)
  | fuel + 1, digits =>
    match cell.onGrid (leading - digits) with
    | some count => (count, leading - digits)
    | none => cell.search leading fuel (digits + 1)

def stripZeros : Nat → Nat → Int → Nat × Int
  | 0, count, place => (count, place)
  | fuel + 1, count, place =>
    if count % 10 = 0 then stripZeros fuel (count / 10) (place + 1) else (count, place)

/-- Shortest `count * 10 ^ place` for a positive value; seventeen digits always suffice. -/
def Cell.shortest (cell : Cell) : Nat × Int :=
  let (count, place) := cell.search cell.magnitude 17 0
  stripZeros 18 count place

def zeros (n : Nat) : String := String.ofList (List.replicate n '0')

/-- Positional from `10 ^ -4` up to `10 ^ 16`, with a fraction always shown; exponent form beyond.
-/
def layout (count : Nat) (place : Int) : String :=
  let digits := (toString count).toList
  let point : Int := digits.length + place
  if -3 ≤ point ∧ point ≤ 16 then
    if point ≤ 0 then "0." ++ zeros point.natAbs ++ String.ofList digits
    else if digits.length ≤ point.toNat then
      String.ofList digits ++ zeros (point.toNat - digits.length) ++ ".0"
    else String.ofList (digits.take point.toNat) ++ "." ++ String.ofList (digits.drop point.toNat)
  else
    let tail := String.ofList (digits.drop 1)
    String.ofList (digits.take 1) ++ (if tail.isEmpty then "" else "." ++ tail) ++ "e" ++ toString (point - 1)

def text (f : Binary.Format) : Binary.Number → String
  | .nan .. => "NaN"
  | .infinite negative => if negative then "-inf" else "inf"
  | .finite negative mantissa scale =>
    let sign := if negative then "-" else ""
    if mantissa = 0 then sign ++ "0.0"
    else
      let (count, place) := (Cell.of f mantissa scale).shortest
      sign ++ layout count place

end TernLang.Decimal

namespace TernLang

def Binary32.text (x : Binary32) : String := Decimal.text Binary.single x.decode
def Binary64.text (x : Binary64) : String := Decimal.text Binary.double x.decode

end TernLang
