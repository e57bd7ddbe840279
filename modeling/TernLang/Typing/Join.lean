import TernLang.Typing.Alias

/-! The common type of two operands, and how a value is tested for truth. -/
namespace TernLang

/-- How a condition is turned into a truth value. -/
inductive Condition where
  /-- It is one already. -/
  | bool
  /-- It is compared with zero of its own type. -/
  | notZero (kind : IntKind)
deriving DecidableEq

namespace TypeName

def isGenericPointer (ty : TypeName) : Bool := ty = named "ptr"

/-- Types whose values are addresses of something known. -/
def isSpecificPointer (type : TypeName) : Bool := type.isPointer || type.isFunction

/-- The join of two resolved types: equal types, or a generic pointer and a specific one.
`void` joins with nothing. -/
def join? (left right : TypeName) : Option TypeName :=
  if left = void ∨ right = void then none
  else if left = right then some left
  else if left.isGenericPointer && right.isSpecificPointer then some right
  else if right.isGenericPointer && left.isSpecificPointer then some left
  else none

end TypeName

namespace Program

/-- Common type of two operands. -/
def join (prog : Program) (loc : Location) (left right : TypeName) :
    Except Error (Option TypeName) := do
  let left ← prog.resolve loc left
  let right ← prog.resolve loc right
  return left.join? right

/-- The destination's type, if a value of the source's type may go there. -/
def joinInto (prog : Program) (loc : Location) (src tgt : TypeName) :
    Except Error (Option TypeName) := do
  return (← prog.join loc src tgt).map fun _ => tgt

/-- The built-in type that a type resolves to. -/
def primitive? (prog : Program) (loc : Location) (ty : TypeName) :
    Except Error (Option Primitive) := do
  return (← prog.resolve loc ty).bareName?.bind Primitive.ofName?

/-- How a value of a type is tested: truth values and fixed-width integers are. -/
def condition (prog : Program) (loc : Location) (ty : TypeName) :
    Except Error Condition := do
  match ← prog.primitive? loc ty with
  | some .bool => return .bool
  | some (.integer kind) => return .notZero kind
  | _ => throw (.type loc (.notCondition ty))

end Program
end TernLang
