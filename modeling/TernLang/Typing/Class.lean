import TernLang.Typing.Join

/-! What a type is made of, as far as lowering cares, and its lowered type. -/
namespace TernLang

inductive TypeClass where
  | void
  | bool
  | integer (bits : Nat) (signed : Bool)
  | float (ty : IrType)
  /-- Any address, whatever it points to. -/
  | pointer
  | slice
  | aggregate (name : String)
deriving DecidableEq

namespace TypeClass

def isNumeric : TypeClass → Bool
  | integer .. | float _ => true
  | _ => false

def ofPrimitive : Primitive → TypeClass
  | .void => void
  | .bool => bool
  | .integer kind => integer kind.bits kind.isSigned
  | .usize => integer 64 false
  | .half => float .half
  | .float => float .float
  | .double => float .double
  | .pointer => pointer

def irType : TypeClass → IrType
  | void => .void
  | bool => .bool
  | integer bits _ => .int bits
  | float ty => ty
  | pointer => .pointer
  | slice => .slice
  | aggregate name => .struct name

end TypeClass

namespace Program

/-- Class of a name that is no alias; built-in types come first. -/
def classifyName? (prog : Program) (name : String) : Option TypeClass :=
  match Primitive.ofName? name with
  | some primitive => some (.ofPrimitive primitive)
  | none =>
    if (prog.structure? name).isSome || (prog.class? name).isSome then some (.aggregate name)
    else (prog.enum? name).map fun enum_ => .integer enum_.bits false

/-- Class of a resolved type; `shown` is the type a diagnostic names. The element of a slice
has to be a type too, what a pointer points to need not. -/
def classifyResolved (prog : Program) (loc : Location) :
    (shown resolved : TypeName) → Except Error TypeClass
  | _, .pointer _ | _, .function .. => return .pointer
  | _, .array elem => do
    let _ ← prog.classifyResolved loc elem elem
    return .slice
  | shown, .named name => match prog.classifyName? name with
    | some found => return found
    | none => throw (.name loc (.undeclaredType shown))

def classify (prog : Program) (loc : Location) (ty : TypeName) : Except Error TypeClass := do
  prog.classifyResolved loc ty (← prog.resolve loc ty)

/-- The lowered type of a type. -/
def irType (prog : Program) (loc : Location) (ty : TypeName) : Except Error IrType := do
  return (← prog.classify loc ty).irType

end Program
end TernLang
