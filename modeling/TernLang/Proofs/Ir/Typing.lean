import TernLang.Proofs.Ir.ControlFlow

/-! Types of lowered code. A register has the type of the instruction that defines it; each
instruction says which types its operands may have. -/
namespace TernLang

open List

theorem Word.truncate_truncate (word : UInt64) (bits : Nat) :
    truncate (truncate word bits) bits = truncate word bits := by
  unfold truncate
  split
  · rfl
  · next small =>
    have below : word.toNat % twoPow bits < 2 ^ 64 :=
      Nat.lt_of_le_of_lt (Nat.mod_le _ _) (UInt64.toNat_lt word)
    rw [UInt64.toNat_ofNat', Nat.mod_eq_of_lt below, Nat.mod_mod]

def IrType.floatBits : IrType → Nat
  | half => 16
  | float => 32
  | double => 64
  | _ => 0

namespace Ir

namespace Module

/-- Values of the type can be kept: its structs are defined, and no part of it is `void`. -/
def isSized (mod : Module) : IrType → Bool
  | .void => false
  | .struct name => mod.structs.contains name
  | .array elem _ => mod.isSized elem
  | _ => true

def partType? (mod : Module) (type : IrType) (idx : Nat) : Option IrType :=
  match type with
  | .struct name => (mod.structs.get? name).bind (·.fields[idx]?)
  | .slice => [.pointer, .i64][idx]?
  | .array elem count => if idx < count then some elem else none
  | _ => none

def hasGlobal (mod : Module) (name : String) : Bool := mod.globals.values.any (·.name = name)

end Module

/-- Operations on truth values, on floats and on integers. -/
def BinaryInst.takes : BinaryInst → IrType → Bool
  | and, type | or, type | xor, type => type = .bool
  | fadd, type | fsub, type | fmul, type | fdiv, type | frem, type => type.isFloat
  | _, type => type.isInteger

/-- Addresses are only compared for equality. -/
def Predicate.takes : Predicate → IrType → Bool
  | eq, type | ne, type => type.isInteger || type = .pointer
  | predicate, type => if predicate.isFloat then type.isFloat else type.isInteger

/-- Extensions go to a wider type and truncations to a narrower one. -/
def CastOp.converts : CastOp → (src tgt : IrType) → Bool
  | trunc, .int src, .int tgt => tgt < src
  | zext, .int src, .int tgt | sext, .int src, .int tgt => src < tgt
  | fptrunc, src, tgt => src.isFloat && tgt.isFloat && tgt.floatBits < src.floatBits
  | fpext, src, tgt => src.isFloat && tgt.isFloat && src.floatBits < tgt.floatBits
  | fptosi, src, .int _ | fptoui, src, .int _ => src.isFloat
  | sitofp, .int _, tgt | uitofp, .int _, tgt => tgt.isFloat
  | ptrtoint, .pointer, .int _ | inttoptr, .int _, .pointer => true
  | _, _, _ => false

def FunctionType.accepts (type : FunctionType) (args : List IrType) : Bool :=
  if type.variadic then type.params.isPrefixOf args else args = type.params

namespace Instruction

def type : Instruction → IrType
  | alloca .. | elementPtr .. => .pointer
  | load _ type _ | extractValue _ type _ _ | cast _ _ _ type => type
  | binary _ _ left _ => left.type
  | compare .. => .bool
  | insertValue _ aggregate _ _ => aggregate.type
  | call _ _ type _ => type.result
  | store .. => .void

/-- Types that the instruction names, with those of its operands and of its result. -/
def types (instr : Instruction) : List IrType :=
  instr.type :: instr.operands.map (·.type) ++ match instr with
    | alloca _ type | elementPtr _ type _ _ => [type]
    | call _ _ type _ => type.params
    | _ => []

def Fits (mod : Module) : Instruction → Prop
  | alloca _ type => mod.isSized type
  | load _ type ptr => mod.isSized type ∧ ptr.type = .pointer
  | store val ptr => mod.isSized val.type ∧ ptr.type = .pointer
  | elementPtr _ base ptr indices =>
    mod.isSized base ∧ ptr.type = .pointer ∧ ∀ idx ∈ indices, idx.type.isInteger
  | binary _ op left right => left.type = right.type ∧ op.takes left.type
  | compare _ predicate left right => left.type = right.type ∧ predicate.takes left.type
  | cast _ op val tgt => op.converts val.type tgt
  | call _ callee type args => callee.type = .pointer ∧ type.accepts (args.map (·.type))
  | extractValue _ type aggregate idx => mod.partType? aggregate.type idx = some type
  | insertValue _ aggregate val idx => mod.partType? aggregate.type idx = some val.type

end Instruction

/-- Conditions are truth values, and what is returned has the type of the result. -/
def Terminator.Fits (res : IrType) : Terminator → Prop
  | branch _ => True
  | condBranch cond _ _ => cond.type = .bool
  | ret none => res = .void
  | ret (some val) => val.type = res

def typeIn? (code : List Instruction) (reg : Nat) : Option IrType :=
  (code.find? (·.result? = some reg)).map Instruction.type

variable (fn : Function)

namespace Function

def code : List Instruction := fn.blocks.flatMap (·.instructions)

def registerType? (reg : Nat) : Option IrType := typeIn? fn.code reg

/-- Types of the parameters and of the code. -/
def types : List IrType :=
  fn.type.params ++ fn.blocks.flatMap fun block =>
    block.instructions.flatMap Instruction.types ++
      block.terminator.toList.flatMap fun term => term.operands.map (·.type)

end Function

/-- The operand exists and has the type that the value carries. -/
def Value.Typed (mod : Module) (fn : Function) (val : Value) : Prop :=
  match val.operand with
  | .register idx => fn.registerType? idx = some val.type
  | .argument idx => fn.type.params[idx]? = some val.type
  | .int word => ∃ bits, val.type = .int bits ∧ Word.truncate word bits = word
  | .float _ => val.type.isFloat
  | .null => val.type = .pointer
  | .zero => mod.isSized val.type
  | .global name => val.type = .pointer ∧ mod.hasGlobal name
  | .function sym => val.type = .pointer ∧ (mod.function? sym).isSome

/-- Every instruction and every terminator gets operands of the right types. -/
structure Function.WellTyped (mod : Module) (fn : Function) : Prop where
  operands : ∀ block ∈ fn.blocks, ∀ instr ∈ block.instructions, ∀ value ∈ instr.operands,
    value.Typed mod fn
  instructions : ∀ block ∈ fn.blocks, ∀ instr ∈ block.instructions, instr.Fits mod
  returned : ∀ block ∈ fn.blocks, ∀ term, block.terminator = some term →
    ∀ value ∈ term.operands, value.Typed mod fn
  terminators : ∀ block ∈ fn.blocks, ∀ term, block.terminator = some term →
    term.Fits fn.type.result

def Module.WellTyped (mod : Module) : Prop :=
  ∀ sym fn, mod.function? sym = some fn → fn.WellTyped mod

theorem typeIn?_of_mem (unique : (defined code).Nodup) (mem : instr ∈ code)
    (defines : instr.result? = some reg) : typeIn? code reg = some instr.type := by
  induction code with
  | nil => contradiction
  | cons first rest ih =>
    rw [typeIn?, find?_cons]
    cases mem_cons.mp mem with
    | inl same =>
      subst same
      simp [defines]
    | inr later =>
      have elsewhere : reg ∈ defined rest := mem_filterMap.mpr ⟨instr, later, defines⟩
      have ne : first.result? ≠ some reg := by
        intro found
        rw [defined, filterMap_cons, found] at unique
        exact (nodup_cons.mp unique).1 elsewhere
      have tail : (defined rest).Nodup := by
        rw [defined, filterMap_cons] at unique
        split at unique
        · exact unique
        · exact (nodup_cons.mp unique).2
      rw [decide_eq_false ne]
      exact ih tail later

namespace Function

theorem defined_code : defined fn.code = fn.registers := by
  unfold defined code registers
  rw [filterMap_flatMap]
  rfl

theorem registerType?_of_mem {fn : Function} (unique : fn.registers.Nodup)
    (there : block ∈ fn.blocks) (mem : instr ∈ block.instructions)
    (defines : instr.result? = some reg) :
    fn.registerType? reg = some instr.type :=
  typeIn?_of_mem (fn.defined_code ▸ unique) (mem_flatMap.mpr ⟨block, there, mem⟩) defines

end Function
end Ir
end TernLang
