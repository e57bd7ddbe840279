import TernLang.Binary.Float

/-! Half precision. A value is rounded to the nearest half through single
precision, with a half-way case going away from zero. -/
namespace TernLang.Half

def roundBits (bits : Nat) : Nat :=
  let sign := bits / twoPow 31 % 2 * twoPow 15
  let exponent := bits / twoPow 23 % twoPow 8
  let fraction := bits % twoPow 23
  if exponent = 255 then sign + 0x7C00 + (if fraction = 0 then 0 else 0x200)
  else if exponent ≥ 143 then sign + 0x7C00
  else if exponent < 102 then sign
  else if exponent ≤ 112 then
    -- The result is subnormal: its unit is 2 ^ -24.
    let mantissa := twoPow 23 + fraction
    let shift := 126 - exponent
    sign + mantissa / twoPow shift + mantissa / twoPow (shift - 1) % 2
  else
    sign + (exponent - 112) * twoPow 10 + fraction / twoPow 13 + fraction / twoPow 12 % 2

def ofBinary64 (x : Binary64) : UInt16 := (roundBits x.narrow.bits.toNat).toUInt16

/-- The value of half bits; every NaN becomes the positive quiet one. -/
def toBinary64 (bits : UInt16) : Binary64 :=
  match Binary.half.decode bits.toNat with
  | .finite negative mantissa scale => ⟨(Binary.double.ofScaled negative mantissa scale).toUInt64⟩
  | .infinite negative => ⟨(Binary.double.withSign negative Binary.double.infinity).toUInt64⟩
  | .nan .. => ⟨0x7FF8000000000000⟩

end TernLang.Half
