import TernLang.Power

/-! Reading the low bits of a 64-bit word, as an unsigned or a signed number. -/
namespace TernLang.Word

/-- The low `bits` bits; a width of 64 or more keeps the word. -/
def truncate (word : UInt64) (bits : Nat) : UInt64 :=
  if bits ≥ 64 then word else (word.toNat % twoPow bits).toUInt64

/-- The low `bits` bits in two's complement; width zero reads the whole word. -/
def signed (word : UInt64) (bits : Nat) : Int :=
  let width := if bits = 0 ∨ bits ≥ 64 then 64 else bits
  let low := word.toNat % twoPow width
  if low < twoPow (width - 1) then low else (low : Int) - twoPow width

/-- Two's complement of an integer. -/
def ofInt (val : Int) : UInt64 := (val % twoPow 64).toNat.toUInt64

/-- The lowest `count` bytes, least significant first. -/
def bytes (word : UInt64) (count : Nat) : List UInt8 :=
  (List.range count).map fun i => (word.toNat / twoPow (8 * i) % 256).toUInt8

/-- The number written by bytes, least significant first. -/
def ofBytes : List UInt8 → Nat
  | [] => 0
  | byte :: rest => byte.toNat + 256 * ofBytes rest

/-- Hexadecimal digits, at least `width` of them. -/
def hex (width val : Nat) (upper : Bool) : String :=
  let digits := Nat.toDigits 16 val
  let cased := if upper then digits.map Char.toUpper else digits
  String.ofList (List.replicate (width - digits.length) '0' ++ cased)

end TernLang.Word
