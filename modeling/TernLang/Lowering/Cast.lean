import TernLang.Lowering.Basic

/-! Conversions between classes of types. -/
namespace TernLang.Lowering

/-- Instructions that convert a value. -/
inductive Conversion where
  /-- The value already fits. -/
  | keep
  | cast (op : Ir.CastOp)
  /-- Compare with zero. -/
  | test (predicate : Ir.Predicate)
deriving DecidableEq

/-- Order of the floating point types by precision. -/
def floatRank : IrType → Nat
  | .half => 0
  | .float => 1
  | _ => 2

/-- The sign decides how a narrow integer is extended. -/
def extension (signed : Bool) : Ir.CastOp := if signed then .sext else .zext

/-- How a written cast converts, if it may. -/
def conversion? : (src tgt : TypeClass) → Option Conversion
  | .integer bits signed, .integer bits' _ =>
    if bits = bits' then some .keep
    else if bits > bits' then some (.cast .trunc)
    else some (.cast (extension signed))
  | .bool, .integer .. => some (.cast .zext)
  | .bool, .bool => some .keep
  | .integer .., .bool | .pointer, .bool => some (.test .ne)
  | .float _, .bool => some (.test .fne)
  | .integer _ signed, .float _ => some (.cast (if signed then .sitofp else .uitofp))
  | .bool, .float _ => some (.cast .uitofp)
  | .float _, .integer _ signed => some (.cast (if signed then .fptosi else .fptoui))
  | .float src, .float tgt =>
    if floatRank src = floatRank tgt then some .keep
    else if floatRank src < floatRank tgt then some (.cast .fpext)
    else some (.cast .fptrunc)
  | .pointer, .integer .. => some (.cast .ptrtoint)
  | .integer .., .pointer => some (.cast .inttoptr)
  | .pointer, .pointer | .slice, .slice => some .keep
  | .aggregate src, .aggregate tgt => if src = tgt then some .keep else none
  | _, _ => none

/-- How an argument in a foreign tail is promoted: small floats to `double`, truth values and
small integers to 32 bits. Nothing of type `void` is passed. -/
def promotion? : TypeClass → Option (Conversion × IrType)
  | .float .double => some (.keep, .double)
  | .float _ => some (.cast .fpext, .double)
  | .bool => some (.cast .zext, .i32)
  | .integer bits signed =>
    if bits < 32 then some (.cast (extension signed), .i32) else some (.keep, .int bits)
  | .void => none
  | other => some (.keep, other.irType)

/-- Convert a value to a lowered type. -/
def applyConversion (val : Ir.Value) (tgt : IrType) : Conversion → Lower Ir.Value
  | .keep => return val
  | .cast op => build (.cast op val tgt)
  | .test predicate => build (.compare predicate val (.zero val.type))

section
variable (ctx : Context) (line : Nat)

def convert (typed : Typed) (tgt : TypeName) : Lower Ir.Value := do
  let src ← classify ctx line typed.type
  let into ← classify ctx line tgt
  match conversion? src into with
  | some conv => applyConversion typed.value into.irType conv
  | none => failType ctx line (.badCast typed.type tgt)

def promote (typed : Typed) : Lower Ir.Value := do
  match promotion? (← classify ctx line typed.type) with
  | some (conv, tgt) => applyConversion typed.value tgt conv
  | none => failType ctx line .voidArgument

/-- Extend an index or a count to a word. -/
def widenIndex (idx : Typed) : Lower Ir.Value := do
  match ← classify ctx line idx.type with
  | .integer 64 _ => return idx.value
  | .integer _ signed => build (.cast (extension signed) idx.value .i64)
  | .bool => build (.cast .zext idx.value .i64)
  | _ => failType ctx line (.notIndex idx.type)

def truth (typed : Typed) : Lower Ir.Value := do
  match ← ctx.program.condition (ctx.location line) typed.type with
  | .bool => return typed.value
  | .notZero _ => build (.compare .ne typed.value (.zero typed.value.type))

end
end TernLang.Lowering
