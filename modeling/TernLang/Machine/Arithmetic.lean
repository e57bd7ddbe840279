import TernLang.Machine.Fault
import TernLang.Primitive

/-! Operations on values. Integers are computed modulo a word and cut to the width of their
type; floats are computed as doubles and rounded to their type. -/
namespace TernLang.Machine

namespace Slot

/-- Integers and addresses are words. -/
def word : Slot → Except Fault UInt64
  | int val | pointer val => return val
  | other => throw (.notInteger other)

def real : Slot → Except Fault Binary64
  | float val => return val
  | other => throw (.notFloat other)

end Slot

def roundTo (ty : IrType) (val : Binary64) : Binary64 :=
  match ty with
  | .float => val.narrow.widen
  | .half => Half.toBinary64 (Half.ofBinary64 val)
  | _ => val

open Ir (BinaryInst Predicate CastOp)

def floatOp? : BinaryInst → Option (Binary64 → Binary64 → Binary64)
  | .fadd => some .add
  | .fsub => some .sub
  | .fmul => some .mul
  | .fdiv => some .div
  | .frem => some .rem
  | _ => none

/-- Integer operations at a width, other than division. -/
def wordOp? : BinaryInst → Option (UInt64 → UInt64 → UInt64)
  | .add => some (· + ·)
  | .sub => some (· - ·)
  | .mul => some (· * ·)
  | .and => some (· &&& ·)
  | .or => some (· ||| ·)
  | .xor => some (· ^^^ ·)
  | _ => none

/-- Quotients and remainders at a width; signed ones round toward zero. -/
def divisionOp? (bits : Nat) : BinaryInst → Option (UInt64 → UInt64 → UInt64)
  | .sdiv => some fun a b => Word.ofInt ((Word.signed a bits).tdiv (Word.signed b bits))
  | .srem => some fun a b => Word.ofInt ((Word.signed a bits).tmod (Word.signed b bits))
  | .udiv => some fun a b => Word.truncate a bits / Word.truncate b bits
  | .urem => some fun a b => Word.truncate a bits % Word.truncate b bits
  | _ => none

def wordBinary (op : BinaryInst) (ty : IrType) (a b : UInt64) : Except Fault UInt64 :=
  match divisionOp? ty.width op with
  | some divide => if Word.truncate b ty.width = 0 then throw .divisionByZero else return divide a b
  | none => match wordOp? op with
    | some compute => return compute a b
    | none => throw (.wrongType op ty)

/-- An operation on values of a type. -/
def binary (op : BinaryInst) (ty : IrType) (left right : Slot) : Except Fault Slot := do
  if ty.isFloat then
    let a ← left.real
    let b ← right.real
    match floatOp? op with
    | some compute => return .float (roundTo ty (compute a b))
    | none => throw (.wrongType op ty)
  else
    let a ← left.word
    let b ← right.word
    return .int (Word.truncate (← wordBinary op ty a b) ty.width)

/-- A comparison of doubles; "not equal" holds of a NaN. -/
def compareFloats (predicate : Predicate) (a b : Binary64) : Bool :=
  match predicate with
  | .feq => a.eq b
  | .fne => ! a.eq b
  | .flt => a.lt b
  | .fle => a.le b
  | .fgt => b.lt a
  | _ => b.le a

/-- A comparison of words at a width. -/
def compareWords (predicate : Predicate) (bits : Nat) (a b : UInt64) : Bool :=
  let a := Word.truncate a bits
  let b := Word.truncate b bits
  match predicate with
  | .eq => a == b
  | .ne => a != b
  | .slt => Word.signed a bits < Word.signed b bits
  | .sle => Word.signed a bits ≤ Word.signed b bits
  | .sgt => Word.signed a bits > Word.signed b bits
  | .sge => Word.signed a bits ≥ Word.signed b bits
  | .ult => a < b
  | .ule => a ≤ b
  | .ugt => a > b
  | _ => a ≥ b

def compare (predicate : Predicate) (ty : IrType) (left right : Slot) : Except Fault Bool := do
  if predicate.isFloat then
    let a ← left.real
    return compareFloats predicate a (← right.real)
  else
    let a ← left.word
    return compareWords predicate ty.width a (← right.word)

/-- Floats that are out of range convert to the nearest end of the word, NaN to zero. -/
def cast (op : CastOp) (src : IrType) (slot : Slot) (tgt : IrType) : Except Fault Slot := do
  let bits := tgt.width
  match op with
  | .trunc | .zext | .ptrtoint => return .int (Word.truncate (Word.truncate (← slot.word) src.width) bits)
  | .sext => return .int (Word.truncate (Word.ofInt (Word.signed (← slot.word) src.width)) bits)
  | .inttoptr => return .pointer (Word.truncate (← slot.word) src.width)
  | .fptrunc | .fpext => return .float (roundTo tgt (← slot.real))
  | .fptosi =>
    let val := (← slot.real).toIntWithin IntKind.long.least IntKind.long.greatest
    return .int (Word.truncate (Word.ofInt val) bits)
  | .fptoui =>
    let val := (← slot.real).toIntWithin IntKind.ulong.least IntKind.ulong.greatest
    return .int (Word.truncate (Word.ofInt val) bits)
  | .sitofp => return .float (roundTo tgt (.ofInt (Word.signed (← slot.word) src.width)))
  | .uitofp => return .float (roundTo tgt (.ofInt (Word.truncate (← slot.word) src.width).toNat))

end TernLang.Machine
