import TernLang.Power

/-! Binary interchange formats. A bit pattern stands for `± mantissa * 2 ^ scale`,
an infinity or a NaN; an exact ratio is rounded to the nearest pattern, ties to even. -/
namespace TernLang.Binary

/-- Widths of the fraction and exponent fields; the sign takes one more bit. -/
structure Format where
  fraction : Nat
  exponent : Nat

def half : Format := ⟨10, 5⟩
def single : Format := ⟨23, 8⟩
def double : Format := ⟨52, 11⟩

namespace Format

def bias (f : Format) : Nat := twoPow (f.exponent - 1) - 1

def signPlace (f : Format) : Nat := twoPow (f.fraction + f.exponent)

/-- Magnitude code of infinity; larger magnitudes are NaNs. -/
def infinity (f : Format) : Nat := (twoPow f.exponent - 1) * twoPow f.fraction

/-- Scale of the subnormal numbers, the least one. -/
def leastScale (f : Format) : Int := 1 - f.bias - f.fraction

/-- A NaN with its top fraction bit set. -/
def quietBit (f : Format) : Nat := twoPow (f.fraction - 1)

end Format

inductive Number where
  | finite (negative : Bool) (mantissa : Nat) (scale : Int)
  | infinite (negative : Bool)
  | nan (negative : Bool) (payload : Nat)

def Format.decode (f : Format) (bits : Nat) : Number :=
  let negative := bits / f.signPlace % 2 == 1
  let exponent := bits / twoPow f.fraction % twoPow f.exponent
  let fraction := bits % twoPow f.fraction
  if exponent = twoPow f.exponent - 1 then
    if fraction = 0 then .infinite negative else .nan negative fraction
  else if exponent = 0 then .finite negative fraction f.leastScale
  else .finite negative (twoPow f.fraction + fraction) (f.leastScale + (exponent - 1))

def Format.withSign (f : Format) (negative : Bool) (magnitude : Nat) : Nat :=
  if negative then f.signPlace + magnitude else magnitude

/-- `value * 2 ^ power` and the denominator that keeps it integral. -/
def scaled (value : Nat) (power : Int) : Nat × Nat :=
  if power < 0 then (value, twoPow power.natAbs) else (value * twoPow power.natAbs, 1)

/-- Nearest pattern to `numerator / denominator`, ties to even; too large is infinite. -/
def Format.ofRatio (f : Format) (negative : Bool) (numerator denominator : Nat) : Nat :=
  if numerator = 0 then f.withSign negative 0
  else
    let guess : Int := (numerator.log2 : Int) - denominator.log2 - f.fraction
    let below (scale : Int) : Bool :=
      let (n, d) := scaled numerator (-scale)
      n < twoPow f.fraction * (denominator * d)
    let scale := max (if below guess then guess - 1 else guess) f.leastScale
    let (n, d) := scaled numerator (-scale)
    let unit := denominator * d
    let quotient := n / unit
    let twice := 2 * (n % unit)
    let up := twice > unit || (twice == unit && quotient % 2 == 1)
    let rounded := if up then quotient + 1 else quotient
    let magnitude := (scale - f.leastScale).toNat * twoPow f.fraction + rounded
    f.withSign negative (min magnitude f.infinity)

/-- Nearest pattern to `mantissa * 2 ^ scale`. -/
def Format.ofScaled (f : Format) (negative : Bool) (mantissa : Nat) (scale : Int) : Nat :=
  let (n, d) := scaled mantissa scale
  f.ofRatio negative n d

end TernLang.Binary
