import TernLang.Binary.Format

/-! Floating-point values as bit patterns, with the conversions and arithmetic
of the language. An invalid operation gives the quiet NaN with its sign set; a NaN
operand is passed on, quieted, the left one first. -/
namespace TernLang
open Binary

structure Binary32 where
  bits : UInt32
deriving DecidableEq

structure Binary64 where
  bits : UInt64
deriving DecidableEq

namespace Binary32

def decode (x : Binary32) : Number := single.decode x.bits.toNat

def neg (x : Binary32) : Binary32 := ⟨x.bits ^^^ 0x80000000⟩

def widen (x : Binary32) : Binary64 :=
  match x.decode with
  | .finite negative mantissa scale => ⟨(double.ofScaled negative mantissa scale).toUInt64⟩
  | .infinite negative => ⟨(double.withSign negative double.infinity).toUInt64⟩
  | .nan negative payload =>
    let kept := payload * twoPow 29 ||| double.quietBit
    ⟨(double.withSign negative (double.infinity + kept)).toUInt64⟩

end Binary32

namespace Binary64

def decode (x : Binary64) : Number := double.decode x.bits.toNat

def zero : Binary64 := ⟨0⟩

def invalid : Binary64 := ⟨0xFFF8000000000000⟩

def neg (x : Binary64) : Binary64 := ⟨x.bits ^^^ 0x8000000000000000⟩

def isNaN (x : Binary64) : Bool := match x.decode with
  | .nan .. => true
  | _ => false

/-- The same NaN with its quiet bit set. -/
def quieted (x : Binary64) : Binary64 := ⟨x.bits ||| 0x0008000000000000⟩

/-- Nearest single-precision value, ties to even. -/
def narrow (x : Binary64) : Binary32 :=
  match x.decode with
  | .finite negative mantissa scale => ⟨(single.ofScaled negative mantissa scale).toUInt32⟩
  | .infinite negative => ⟨(single.withSign negative single.infinity).toUInt32⟩
  | .nan negative payload =>
    let kept := payload / twoPow 29 ||| single.quietBit
    ⟨(single.withSign negative (single.infinity + kept)).toUInt32⟩

def ofInt (val : Int) : Binary64 :=
  ⟨(double.ofRatio (val < 0) val.natAbs 1).toUInt64⟩

/-- Nearest value to the decimal `digits / 10 ^ places`. -/
def ofDecimal (digits places : Nat) : Binary64 :=
  ⟨(double.ofRatio false digits (tenPow places)).toUInt64⟩

/-- The integer part, clamped to a range; a NaN counts as zero. -/
def toIntWithin (low high : Int) (x : Binary64) : Int :=
  match x.decode with
  | .finite negative mantissa scale =>
    let (n, d) := scaled mantissa scale
    let magnitude : Int := (n / d : Nat)
    max low (min high (if negative then -magnitude else magnitude))
  | .infinite negative => if negative then low else high
  | .nan .. => 0

/-- Remainder of `mantissa * 2 ^ scale` values after truncated division, exactly. -/
def remainder (x y : Binary64) : Binary64 :=
  match x.decode, y.decode with
  | .finite negative a scale, .finite _ b scale' =>
    if b = 0 then invalid
    else
      let low := min scale scale'
      let left := a * twoPow (scale - low).toNat
      let right := b * twoPow (scale' - low).toNat
      ⟨(double.ofScaled negative (left % right) low).toUInt64⟩
  | .finite .., .infinite _ => x
  | _, _ => invalid

/-- Apply an operation that is exact on non-NaN operands up to rounding. -/
def lift (op : Float → Float → Float) (x y : Binary64) : Binary64 :=
  let res := op (Float.ofBits x.bits) (Float.ofBits y.bits)
  if res.isNaN then invalid else ⟨res.toBits⟩

/-- NaN operands are passed on before the operation is tried. -/
def propagate (op : Binary64 → Binary64 → Binary64) (x y : Binary64) : Binary64 :=
  if x.isNaN then x.quieted else if y.isNaN then y.quieted else op x y

def add : Binary64 → Binary64 → Binary64 := propagate (lift (· + ·))
def sub : Binary64 → Binary64 → Binary64 := propagate (lift (· - ·))
def mul : Binary64 → Binary64 → Binary64 := propagate (lift (· * ·))
def div : Binary64 → Binary64 → Binary64 := propagate (lift (· / ·))
def rem : Binary64 → Binary64 → Binary64 := propagate remainder

/-- Comparisons with a NaN are false. -/
def eq (x y : Binary64) : Bool := Float.ofBits x.bits == Float.ofBits y.bits
def lt (x y : Binary64) : Bool := Float.ofBits x.bits < Float.ofBits y.bits
def le (x y : Binary64) : Bool := Float.ofBits x.bits ≤ Float.ofBits y.bits

end Binary64
end TernLang
