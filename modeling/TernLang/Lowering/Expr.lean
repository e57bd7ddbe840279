import TernLang.Lowering.Call
import TernLang.Syntax.Render

/-! Lowering of expressions, to values and to addresses of storage. -/
namespace TernLang.Lowering

/-- Predicate of a comparison between values of a class. -/
def comparison? : TypeClass → BinaryOp → Option Ir.Predicate
  | .integer _ signed, op => match op, signed with
    | .equal, _ => some .eq
    | .notEqual, _ => some .ne
    | .less, true => some .slt
    | .lessEqual, true => some .sle
    | .greater, true => some .sgt
    | .greaterEqual, true => some .sge
    | .less, false => some .ult
    | .lessEqual, false => some .ule
    | .greater, false => some .ugt
    | .greaterEqual, false => some .uge
    | _, _ => none
  | .float _, op => match op with
    | .equal => some .feq
    | .notEqual => some .fne
    | .less => some .flt
    | .lessEqual => some .fle
    | .greater => some .fgt
    | .greaterEqual => some .fge
    | _ => none
  | .bool, op | .pointer, op => match op with
    | .equal => some .eq
    | .notEqual => some .ne
    | _ => none
  | _, _ => none

/-- Instruction of an arithmetic operation on values of a class. -/
def arithmetic? : TypeClass → BinaryOp → Option Ir.BinaryInst
  | .integer _ signed, op => match op, signed with
    | .add, _ => some .add
    | .subtract, _ => some .sub
    | .multiply, _ => some .mul
    | .divide, true => some .sdiv
    | .divide, false => some .udiv
    | .modulus, true => some .srem
    | .modulus, false => some .urem
    | _, _ => none
  | .float _, op => match op with
    | .add => some .fadd
    | .subtract => some .fsub
    | .multiply => some .fmul
    | .divide => some .fdiv
    | .modulus => some .frem
    | _ => none
  | _, _ => none

section
variable (ctx : Context) (line : Nat)

def lowerLiteral : Literal → Lower Typed
  | .bool val => return ⟨.bool val, .named "bool"⟩
  | .integer kind val => return ⟨.int kind.bits (Word.ofInt val), .named kind.name⟩
  | .half val => return ⟨.float .half val.widen, .named "half"⟩
  | .float val => return ⟨.float .float val.widen, .named "float"⟩
  | .double val => return ⟨.float .double val, .named "double"⟩
  | .null => return ⟨.null, .named "ptr"⟩
  | .string text => modifyGet fun state =>
    let (mod, val) := state.module.addString text
    (⟨val, .pointer (.named "ubyte")⟩, { state with module := mod })

/-- Storage a pointer points to. -/
def targetAddress (ptr : Typed) : Lower Typed := do
  match (← resolve ctx line ptr.type).target? with
  | some tgt => return ⟨ptr.value, tgt⟩
  | none => failType ctx line (.notPointer ptr.type)

/-- An element behind a pointer or in a slice. -/
def elementAddress (base : Typed) (lowerIndex : Lower Typed) : Lower Typed := do
  let (ptr, elem) ← match ← resolve ctx line base.type with
    | .pointer elem => pure (base.value, elem)
    | .array elem => do pure (← build (.extractValue .pointer base.value 0), elem)
    | _ => failType ctx line (.notIndexable base.type)
  let idx ← widenIndex ctx line (← lowerIndex)
  let ty ← solidType ctx line elem (.notIndexable base.type)
  return ⟨← build (.elementPtr ty ptr [idx]), elem⟩

/-- Whether an expression denotes storage that the program declares. -/
def isAddressable : Expr → Bool
  | .name .. | .load .. | .index .. | .member .. => true
  | .qualified _ scope _ => (ctx.program.class? scope).isSome
  | _ => false

/-- Address of the aggregate that storage holds or points to. -/
def followAddress (addr : Typed) : Lower Typed := do
  match (← resolve ctx line addr.type).target? with
  | some tgt => return ⟨← build (.load .pointer addr.value), tgt⟩
  | none => return addr

/-- Address of an aggregate that a value is or points to; one that is stored nowhere is copied
to a stack slot first. -/
def spillValue (typed : Typed) : Lower Typed := do
  match (← resolve ctx line typed.type).target? with
  | some tgt => return ⟨typed.value, tgt⟩
  | none => do
    let ty ← solidType ctx line typed.type .voidHasNoMembers
    let slot ← build (.alloca ty)
    build (.store typed.value slot)
    return ⟨slot, typed.type⟩

/-- Position and type of a member of a structure or class. -/
def memberOf (base : TypeName) (owner member : String) : Lower (Nat × TypeName) := do
  match ctx.program.structure? owner with
  | some struct => match struct.memberIndex? member, struct.members.find? (·.name == member) with
    | some idx, some field => return (idx, field.type)
    | _, _ => failName ctx line (.noMember base member)
  | none => match ctx.program.class? owner with
    | none => failName ctx line (.noMember base member)
    | some cls => match cls.instanceIndex? member, cls.instanceFields.find? (·.name == member) with
      | some idx, some field =>
        if ! field.isPublic && ! ctx.insideClass cls.name then
          failName ctx line (.privateField member owner)
        else return (idx, field.type)
      | _, _ => failName ctx line (.noMember base member)

/-- A member of the aggregate at an address. -/
def memberAddress (base : Typed) (member : String) : Lower Typed := do
  match ← resolve ctx line base.type with
  | .array _ =>
    if member = "length" then return ⟨← build (.fieldPtr .slice base.value 1), .named "usize"⟩
    else failName ctx line (.noSliceMember base.type member)
  | .named owner => do
    let (idx, ty) ← memberOf ctx line base.type owner member
    return ⟨← build (.fieldPtr (.struct owner) base.value idx), ty⟩
  | _ => failName ctx line (.noMember base.type member)

def staticAddress (scope field : String) : Lower Typed := do
  match ctx.program.class? scope with
  | none => failName ctx line (.undeclaredScope scope)
  | some cls => match cls.staticField? field with
    | none => failName ctx line (.noStaticField scope field)
    | some found =>
      if ! found.isPublic && ! ctx.insideClass cls.name then
        failName ctx line (.privateStaticField scope field)
      else return ⟨.global (cls.staticSymbol field), found.type⟩

/-- `scope::name`: a member of an enumeration or a static field. -/
def lowerQualified (scope name : String) : Lower Typed := do
  match ctx.program.enum? scope with
  | none => loadFrom ctx line (← staticAddress ctx line scope name)
  | some enum_ => match enum_.value? name with
    | some val => return ⟨.int enum_.bits val.toUInt64, .named scope⟩
    | none => failName ctx line (.noEnumMember scope name)

def sizeOfType (ty : TypeName) : Lower Nat := do
  let lowered ← solidType ctx line ty .voidHasNoSize
  match (← get).module.size lowered with
  | .ok size => return size
  | .error cause => throw (.layout cause)

def mallocType : Ir.FunctionType := { params := [.i64], result := .pointer }

/-- A pointer to fresh storage of so many bytes. -/
def allocate (ty : TypeName) (bytes : Ir.Value) : Lower Typed := do
  let (callee, sig) ← routine "malloc" mallocType
  return ⟨← build (.call callee sig [bytes]), .pointer ty⟩

/-- Bytes of a fixed number of objects; a word that overflows stays at its greatest value. -/
def fixedBytes (size : Nat) (count : Option Nat) : UInt64 :=
  (min (size * count.getD 1) (twoPow 64 - 1)).toUInt64

def lowerFunctionValue (name : String) (params : Option (List TypeName)) : Lower Typed := do
  match ← ctx.program.findExact (ctx.location line) name params with
  | some sig => return ⟨.function sig.symbol, sig.pointerType⟩
  | none => failName ctx line (.undeclaredFunction name)

/-- Every item may go to an array of the element type. -/
def expectItems (elem : TypeName) : List Typed → Lower Unit
  | [] => return ()
  | item :: items => do
    expectInto ctx line item.type elem (.item elem)
    expectItems elem items

/-- A stack array of the first item's type. -/
def lowerItems (items : List Typed) : Lower Typed := do
  match items with
  | [] => throw (.parse (ctx.location line) .emptyArray)
  | first :: rest => do
    expectItems ctx line first.type rest
    let ty ← ctx.program.irType (ctx.location line) first.type
    return ⟨← stackArray ty (items.map (·.value)), .pointer first.type⟩

def lowerOperation (op : BinaryOp) (left right : Typed) : Lower Typed := do
  match ← ctx.program.join (ctx.location line) left.type right.type with
  | none => failType ctx line (.incompatible left.type right.type op.text)
  | some ty => do
    let operands ← classify ctx line ty
    if op.isComparison then
      match comparison? operands op with
      | some predicate => return ⟨← build (.compare predicate left.value right.value), .named "bool"⟩
      | none => failType ctx line (.unsupported op.text ty)
    else
      match arithmetic? operands op with
      | some instr => return ⟨← build (.binary instr left.value right.value), ty⟩
      | none => failType ctx line (.unsupported op.text ty)

end

/-- The instruction of `and` and `or`; both operands are always evaluated. -/
def logical? : BinaryOp → Option Ir.BinaryInst
  | .and => some .and
  | .or => some .or
  | _ => none

section
variable (ctx : Context) (constant : (line : Nat) → String → Lower Typed)

mutual

/-- Lower an expression to its value. `constant` gives the value of a named constant. -/
def lowerExprWith : Expr → Lower Typed
  | .literal _ val => lowerLiteral val
  | .name mark name => do loadFrom ctx mark.line (← nameAddress ctx mark.line name)
  | .addressOf _ val => do
    let addr ← lowerAddressWith val
    return ⟨addr.value, .pointer addr.type⟩
  | .load mark val => do
    loadFrom ctx mark.line (← targetAddress ctx mark.line (← lowerExprWith val))
  | .index mark val off => do
    loadFrom ctx mark.line
      (← elementAddress ctx mark.line (← lowerExprWith val) (lowerExprWith off))
  | .member mark val field => do
    let base ← if isAddressable ctx val then do followAddress ctx mark.line (← lowerAddressWith val)
      else do spillValue ctx mark.line (← lowerExprWith val)
    loadFrom ctx mark.line (← memberAddress ctx mark.line base field)
  | .call mark none name args => do callNamed ctx mark.line name (← lowerArgsWith args)
  | .call mark (some scope) name args => do
    let cls ← staticClass ctx mark.line scope
    callStatic ctx mark.line cls name (← lowerArgsWith args)
  | .method mark val name args => do
    let object ← if isAddressable ctx val then do followAddress ctx mark.line (← lowerAddressWith val)
      else do spillValue ctx mark.line (← lowerExprWith val)
    let cls ← objectClass ctx mark.line object
    callMethod ctx mark.line cls object name (← lowerArgsWith args)
  | .not _ val => do
    let cond ← truth ctx val.line (← lowerExprWith val)
    return ⟨← build (.binary .xor cond (.bool true)), .named "bool"⟩
  | .cast mark tgt val => do
    return ⟨← convert ctx mark.line (← lowerExprWith val) tgt, tgt⟩
  | .function mark name params => lowerFunctionValue ctx mark.line name params
  | .sizeOf mark ty => do
    return ⟨.int 64 (← sizeOfType ctx mark.line ty).toUInt64, .named "usize"⟩
  | .allocate mark ty count => do
    allocate ty (.int 64 (fixedBytes (← sizeOfType ctx mark.line ty) count))
  | .allocateMany mark ty count => do
    let size ← sizeOfType ctx mark.line ty
    let count ← widenIndex ctx mark.line (← lowerExprWith count)
    allocate ty (← build (.binary .mul count (.int 64 size.toUInt64)))
  | .array mark items => do lowerItems ctx mark.line (← lowerArgsWith items)
  | .constant mark name => constant mark.line name
  | .qualified mark scope name => lowerQualified ctx mark.line scope name
  | .binary mark op left right => match logical? op with
    | some instr => do
      let left ← truth ctx left.line (← lowerExprWith left)
      let right ← truth ctx right.line (← lowerExprWith right)
      return ⟨← build (.binary instr left right), .named "bool"⟩
    | none => do
      let left ← lowerExprWith left
      let right ← lowerExprWith right
      lowerOperation ctx mark.line op left right

/-- Lower an expression to the address of its storage; the type is that of the storage. -/
def lowerAddressWith : Expr → Lower Typed
  | .name mark name => nameAddress ctx mark.line name
  | .load mark val => do targetAddress ctx mark.line (← lowerExprWith val)
  | .index mark val off => do
    elementAddress ctx mark.line (← lowerExprWith val) (lowerExprWith off)
  | .member mark val field => do
    let base ← if isAddressable ctx val then do followAddress ctx mark.line (← lowerAddressWith val)
      else do spillValue ctx mark.line (← lowerExprWith val)
    memberAddress ctx mark.line base field
  | .qualified mark scope name => staticAddress ctx mark.line scope name
  | other => failType ctx other.line (.notAddressable other.text)

def lowerArgsWith : List Expr → Lower (List Typed)
  | [] => return []
  | arg :: args => do
    let typed ← lowerExprWith arg
    return typed :: (← lowerArgsWith args)

end

end

/-- The value of a named constant, lowered where it is used. `expanding` are the constants
around the use; a chain without repetition is no longer than the table. -/
def lowerConstant (ctx : Context) : (fuel : Nat) → (expanding : List String) → (line : Nat) → String → Lower Typed
  | fuel, expanding, line, name => match ctx.program.constant? name with
    | none => failName ctx line (.undeclaredConstant name)
    | some constant => match fuel with
      | 0 => failName ctx line (.selfReference name)
      | fuel + 1 =>
        if expanding.contains name then failName ctx line (.selfReference name)
        else lowerExprWith ctx (lowerConstant ctx fuel (name :: expanding)) constant.value

def constantValue (ctx : Context) : (line : Nat) → String → Lower Typed :=
  lowerConstant ctx ctx.program.constants.length []

def lowerExpr (ctx : Context) (expr : Expr) : Lower Typed :=
  lowerExprWith ctx (constantValue ctx) expr

def lowerAddress (ctx : Context) (expr : Expr) : Lower Typed :=
  lowerAddressWith ctx (constantValue ctx) expr

/-- Lower an expression to a truth value. -/
def lowerCondition (ctx : Context) (expr : Expr) : Lower Ir.Value := do
  truth ctx expr.line (← lowerExpr ctx expr)

end TernLang.Lowering
