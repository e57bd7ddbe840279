import TernLang.Binary.Float
import TernLang.Table
import TernLang.Word

/-! The lowered form: typed three-address code in functions of basic blocks. Pointers
carry no pointee type. -/
namespace TernLang

inductive IrType where
  | void
  | int (bits : Nat)
  | half
  | float
  | double
  | pointer
  /-- A struct the module defines. -/
  | struct (name : String)
  | array (elem : IrType) (count : Nat)
  /-- A data pointer and an element count. -/
  | slice
deriving DecidableEq, Inhabited

namespace IrType

def bool : IrType := int 1
def i32 : IrType := int 32
def i64 : IrType := int 64

def isInteger : IrType → Bool
  | int _ => true
  | _ => false

def isFloat : IrType → Bool
  | half | float | double => true
  | _ => false

def isAggregate : IrType → Bool
  | struct _ | array .. | slice => true
  | _ => false

def intBits? : IrType → Option Nat
  | int bits => some bits
  | _ => none

/-- Width used by integer operations; anything that is not an integer is a full word. -/
def width (ty : IrType) : Nat := ty.intBits?.getD 64

end IrType

namespace Ir

inductive Operand where
  | register (idx : Nat)
  | argument (idx : Nat)
  /-- An integer constant, as the word that holds it. -/
  | int (word : UInt64)
  | float (val : Binary64)
  | null
  /-- The all-zero value of any type. -/
  | zero
  | global (name : String)
  | function (sym : String)
deriving DecidableEq

structure Value where
  operand : Operand
  type : IrType
deriving DecidableEq

namespace Value

def register (idx : Nat) (ty : IrType) : Value := ⟨.register idx, ty⟩

/-- An integer constant cut to its width. -/
def int (bits : Nat) (word : UInt64) : Value := ⟨.int (Word.truncate word bits), .int bits⟩

def bool (val : Bool) : Value := int 1 (if val then 1 else 0)
def float (ty : IrType) (val : Binary64) : Value := ⟨.float val, ty⟩
def null : Value := ⟨.null, .pointer⟩
def zero (ty : IrType) : Value := ⟨.zero, ty⟩

/-- What a call of a function without result stands for. -/
def void : Value := zero .void

def global (name : String) : Value := ⟨.global name, .pointer⟩
def function (sym : String) : Value := ⟨.function sym, .pointer⟩
def isVoid (val : Value) : Bool := val.type = .void

end Value

inductive BinaryInst where
  | add | sub | mul | sdiv | udiv | srem | urem
  | fadd | fsub | fmul | fdiv | frem
  | and | or | xor
deriving DecidableEq

namespace BinaryInst

def all : List BinaryInst :=
  [add, sub, mul, sdiv, udiv, srem, urem, fadd, fsub, fmul, fdiv, frem, and, or, xor]

def text : BinaryInst → String
  | add => "add"
  | sub => "sub"
  | mul => "mul"
  | sdiv => "sdiv"
  | udiv => "udiv"
  | srem => "srem"
  | urem => "urem"
  | fadd => "fadd"
  | fsub => "fsub"
  | fmul => "fmul"
  | fdiv => "fdiv"
  | frem => "frem"
  | and => "and"
  | or => "or"
  | xor => "xor"

end BinaryInst

/-- Comparisons of integers and pointers, then of floats; the latter fail on a NaN
except for "not equal". -/
inductive Predicate where
  | eq | ne
  | slt | sle | sgt | sge
  | ult | ule | ugt | uge
  | feq | fne | flt | fle | fgt | fge
deriving DecidableEq

namespace Predicate

def all : List Predicate :=
  [eq, ne, slt, sle, sgt, sge, ult, ule, ugt, uge, feq, fne, flt, fle, fgt, fge]

def isFloat : Predicate → Bool
  | feq | fne | flt | fle | fgt | fge => true
  | _ => false

def text : Predicate → String
  | eq => "eq"
  | ne => "ne"
  | slt => "slt"
  | sle => "sle"
  | sgt => "sgt"
  | sge => "sge"
  | ult => "ult"
  | ule => "ule"
  | ugt => "ugt"
  | uge => "uge"
  | feq => "oeq"
  | fne => "one"
  | flt => "olt"
  | fle => "ole"
  | fgt => "ogt"
  | fge => "oge"

end Predicate

inductive CastOp where
  | trunc | zext | sext
  | fptrunc | fpext
  | fptosi | fptoui | sitofp | uitofp
  | ptrtoint | inttoptr
deriving DecidableEq

namespace CastOp

def all : List CastOp :=
  [trunc, zext, sext, fptrunc, fpext, fptosi, fptoui, sitofp, uitofp, ptrtoint, inttoptr]

def text : CastOp → String
  | trunc => "trunc"
  | zext => "zext"
  | sext => "sext"
  | fptrunc => "fptrunc"
  | fpext => "fpext"
  | fptosi => "fptosi"
  | fptoui => "fptoui"
  | sitofp => "sitofp"
  | uitofp => "uitofp"
  | ptrtoint => "ptrtoint"
  | inttoptr => "inttoptr"

end CastOp

structure FunctionType where
  params : List IrType
  result : IrType
  variadic : Bool := false
  stdcall : Bool := false
deriving DecidableEq

inductive Instruction where
  /-- A stack slot, released when the function returns. -/
  | alloca (res : Nat) (ty : IrType)
  | load (res : Nat) (ty : IrType) (ptr : Value)
  | store (val ptr : Value)
  /-- The address of an element of `base` objects that start at `pointer`. -/
  | elementPtr (res : Nat) (base : IrType) (ptr : Value) (indices : List Value)
  | binary (res : Nat) (op : BinaryInst) (left right : Value)
  | compare (res : Nat) (predicate : Predicate) (left right : Value)
  | cast (res : Nat) (op : CastOp) (val : Value) (tgt : IrType)
  | call (res : Option Nat) (callee : Value) (ty : FunctionType) (args : List Value)
  | extractValue (res : Nat) (ty : IrType) (aggregate : Value) (idx : Nat)
  | insertValue (res : Nat) (aggregate val : Value) (idx : Nat)
deriving DecidableEq

/-- The register an instruction defines. -/
def Instruction.result? : Instruction → Option Nat
  | alloca res _ | load res .. | elementPtr res .. | binary res .. | compare res ..
  | cast res .. | extractValue res .. | insertValue res .. => some res
  | call res .. => res
  | store .. => none

inductive Terminator where
  | branch (tgt : Nat)
  | condBranch (cond : Value) (ifTrue ifFalse : Nat)
  | ret (val : Option Value)
deriving DecidableEq

structure Block where
  label : String
  instructions : List Instruction := []
  terminator : Option Terminator := none
deriving DecidableEq

/-- A function without blocks is a declaration. -/
structure Function where
  symbol : String
  type : FunctionType
  blocks : List Block := []
  /-- Visible only inside its module. -/
  internal : Bool := false
deriving DecidableEq

namespace Function

def isDeclaration (function : Function) : Bool := function.blocks.isEmpty

def block? (function : Function) (idx : Nat) : Option Block := function.blocks[idx]?

end Function

inductive Initializer where
  | zero
  | bytes (bytes : List UInt8)
deriving DecidableEq

structure Global where
  name : String
  type : IrType
  /-- Absent when the storage is in another module. -/
  initializer : Option Initializer
  constant : Bool := false
  hidden : Bool := false
deriving DecidableEq

structure Struct where
  fields : List IrType
  packed : Bool := false
deriving DecidableEq

structure Module where
  name : String
  structs : Table String Struct := .empty
  globals : Table String Global := .empty
  functions : Table String Function := .empty

namespace Module

/-- Add a NUL-terminated text as a hidden constant; its address is the result. -/
def addString (mod : Module) (text : String) : Module × Value :=
  let name := ".str." ++ toString mod.globals.size
  let bytes := text.toUTF8.toList ++ [0]
  let global : Global :=
    { name, type := .array (.int 8) bytes.length, initializer := some (.bytes bytes),
      constant := true, hidden := true }
  ({ mod with globals := mod.globals.insert name global }, .global name)

/-- Declare a function unless the module already has the symbol. -/
def declare (mod : Module) (sym : String) (ty : FunctionType) : Module :=
  { mod with functions := mod.functions.insertNew sym { symbol := sym, type := ty } }

def putFunction (mod : Module) (function : Function) : Module :=
  { mod with functions := mod.functions.insert function.symbol function }

def function? (mod : Module) (sym : String) : Option Function := mod.functions.get? sym

end Module
end Ir
end TernLang
