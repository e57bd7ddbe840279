import TernLang.Ir.Text
import TernLang.Machine.Slot

/-! Why a run stops without a result. -/
namespace TernLang

namespace Ir

inductive LayoutError where
  | void
  | undefinedStruct (name : String)
  | noField (name : String) (idx : Nat)
  | notAggregate (ty : IrType)
  /-- An array has more elements than a list can hold. -/
  | capacity
deriving DecidableEq

def LayoutError.message : LayoutError → String
  | void => "layout requested for void"
  | undefinedStruct name => "struct '" ++ name ++ "' is not defined in the module"
  | noField name idx => "struct '" ++ name ++ "' has no field " ++ toString idx
  | notAggregate ty => "'" ++ ty.text ++ "' is not an aggregate"
  | capacity => "capacity overflow"

end Ir

namespace Machine

inductive Fault where
  | layout (cause : Ir.LayoutError)
  | notInteger (slot : Slot)
  | notFloat (slot : Slot)
  | tooLarge (size : Nat)
  | invalidFree (addr : UInt64)
  | freed (addr : UInt64)
  | badRead (addr : UInt64)
  | badWrite (addr : UInt64)
  | unterminated
  | functionAsData
  | nullDereference
  | noEntry (sym : String)
  | stepLimit (limit : Nat)
  | callDepth (limit : Nat) (sym : String)
  | noBlock (sym : String) (idx : Nat)
  | noTerminator (label sym : String)
  | noItem (idx : Nat)
  | extractFrom (slot : Slot)
  | insertInto (slot : Slot)
  | undefinedRegister (idx : Nat)
  | missingArgument (idx : Nat)
  | unresolvedGlobal (name : String)
  | notFunction (addr : UInt64)
  | noFunction (addr : UInt64)
  | negativeIndex (idx : Int)
  | noElement (ty : IrType) (idx : Int)
  | loadVoid
  | cannotStore (slot : Slot) (ty : IrType)
  | missingHostArgument (name : String) (idx : Nat)
  | aborted
  | unresolvedFunction (name : String)
  | missingFormatArgument
  | wrongType (op : Ir.BinaryInst) (ty : IrType)
  | divisionByZero

/-- The program that runs the other stops at once, and reports nothing. -/
def Fault.isPanic : Fault → Bool
  | layout .capacity => true
  | _ => false

def addressText (addr : UInt64) : String := "0x" ++ Word.hex 1 addr.toNat false

def Fault.message : Fault → String
  | layout cause => cause.message
  | notInteger slot => "expected an integer, found " ++ slot.text
  | notFloat slot => "expected a float, found " ++ slot.text
  | tooLarge size => "allocation of " ++ toString size ++ " bytes is too large"
  | invalidFree addr => "invalid free of address " ++ addressText addr
  | freed addr => "access to freed memory at " ++ addressText addr
  | badRead addr => "out-of-bounds read at " ++ addressText addr
  | badWrite addr => "out-of-bounds write at " ++ addressText addr
  | unterminated => "unterminated string"
  | functionAsData => "function address used as data"
  | nullDereference => "null pointer dereference"
  | noEntry sym => "entry symbol '" ++ sym ++ "' not found"
  | stepLimit limit => "step limit of " ++ toString limit ++ " exceeded"
  | callDepth limit sym => "call depth limit of " ++ toString limit ++ " exceeded in '" ++ sym ++ "'"
  | noBlock sym idx => "'" ++ sym ++ "' has no block " ++ toString idx
  | noTerminator label sym => "block '" ++ label ++ "' of '" ++ sym ++ "' falls off its end"
  | noItem idx => "aggregate has no field " ++ toString idx
  | extractFrom slot => "extractvalue from " ++ slot.text
  | insertInto slot => "insertvalue into " ++ slot.text
  | undefinedRegister idx => "use of undefined register %r" ++ toString idx
  | missingArgument idx => "missing argument " ++ toString idx
  | unresolvedGlobal name => "unresolved global '" ++ name ++ "'"
  | notFunction addr => "call through non-function pointer " ++ addressText addr
  | noFunction addr => "call through invalid pointer " ++ addressText addr
  | negativeIndex idx => "negative field index " ++ toString idx
  | noElement ty idx => "'" ++ ty.text ++ "' has no element " ++ toString idx
  | loadVoid => "load of void"
  | cannotStore slot ty => "cannot store " ++ slot.text ++ " as '" ++ ty.text ++ "'"
  | missingHostArgument name idx => "'" ++ name ++ "' is missing argument " ++ toString idx
  | aborted => "program called abort"
  | unresolvedFunction name => "unresolved function '" ++ name ++ "'"
  | missingFormatArgument => "printf: missing argument"
  | wrongType op ty => "'" ++ op.text ++ "' on '" ++ ty.text ++ "'"
  | divisionByZero => "division by zero"

end Machine
end TernLang
