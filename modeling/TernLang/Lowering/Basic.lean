import TernLang.Ir.Builder
import TernLang.Ir.Layout
import TernLang.Scope
import TernLang.Typing.Class
import TernLang.Typing.Overload

/-! Lowering one function: the module grows with strings and routines, the builder with
instructions, the scope with variables. -/
namespace TernLang.Lowering

/-- A lowered value, or the address of storage, with its source type. -/
structure Typed where
  value : Ir.Value
  type : TypeName

/-- The slot a function's result is kept in until it returns. -/
structure ExitSlot where
  pointer : Ir.Value
  type : IrType

/-- What stays the same while a function is lowered. -/
structure Context where
  program : Program
  function : Function
  exit : Option ExitSlot := none

structure State where
  module : Ir.Module
  builder : Ir.Builder
  scope : Scope := {}

abbrev Lower := StateT State (Except Error)

/-- Stack slots go to the first block of every function. -/
def entryBlock : Nat := 0
/-- Statements start in the second. -/
def bodyBlock : Nat := 1
/-- The third one returns. -/
def quitBlock : Nat := 2

def Context.location (ctx : Context) (line : Nat) : Location := ⟨ctx.function.origin, line⟩

/-- Whether the function belongs to this class. -/
def Context.insideClass (ctx : Context) (name : String) : Bool :=
  match ctx.program.owner? ctx.function with
  | some owner => owner.name == name
  | none => false

def build {α : Type} (action : Ir.Build α) : Lower α := modifyGet fun state =>
  let (res, builder) := action.run state.builder
  (res, { state with builder })

section
variable (ctx : Context) (line : Nat)

def failName {α : Type} (cause : NameError) : Lower α := throw (.name (ctx.location line) cause)

def failType {α : Type} (cause : TypeError) : Lower α := throw (.type (ctx.location line) cause)

def resolve (ty : TypeName) : Lower TypeName := ctx.program.resolve (ctx.location line) ty

def classify (ty : TypeName) : Lower TypeClass := ctx.program.classify (ctx.location line) ty

/-- The lowered type of something that is kept or passed; `void` fails with the given cause. -/
def solidType (ty : TypeName) (ifVoid : TypeError) : Lower IrType := do
  let lowered ← ctx.program.irType (ctx.location line) ty
  if lowered = .void then failType ctx line ifVoid else return lowered

/-- Fail unless a value of the found type may go to a place of the wanted type. -/
def expectInto (found wanted : TypeName) (destination : Destination) : Lower Unit := do
  if (← ctx.program.joinInto (ctx.location line) found wanted).isNone then
    failType ctx line (.mismatch destination found)

/-- Storage of a local variable or of a global. -/
def nameAddress (name : String) : Lower Typed := do
  match (← get).scope.lookup? name with
  | some var => return ⟨var.slot, var.type⟩
  | none => match ctx.program.global? name with
    | some global => return ⟨.global name, global.type⟩
    | none => failName ctx line (.undeclaredVariable name)

def loadFrom (addr : Typed) : Lower Typed := do
  let ty ← solidType ctx line addr.type .voidLoad
  return ⟨← build (.load ty addr.value), addr.type⟩

def defineVariable (name : String) (slot : Ir.Value) (ty : TypeName) (ifTaken : NameError) : Lower Unit := do
  match (← get).scope.define? name ⟨slot, ty⟩ with
  | some scope => modify ({ · with scope })
  | none => failName ctx line ifTaken

end

/-- A routine of the surrounding system, declared on first use. A declaration that is already
there keeps its signature. -/
def routine (sym : String) (ty : Ir.FunctionType) : Lower (Ir.Value × Ir.FunctionType) := do
  let found := ((← get).module.function? sym).map (·.type)
  modify fun state => { state with module := state.module.declare sym ty }
  return (.function sym, found.getD ty)

/-- Store values into the elements of an array slot, from the first on. -/
def storeItems (array : IrType) (slot : Ir.Value) : (idx : Nat) → List Ir.Value → Lower Unit
  | _, [] => return ()
  | idx, item :: items => do
    let addr ← build (.elementPtr array slot [.int 64 0, .int 64 idx.toUInt64])
    build (.store item addr)
    storeItems array slot (idx + 1) items

/-- A fresh stack array that holds the values. -/
def stackArray (elem : IrType) (items : List Ir.Value) : Lower Ir.Value := do
  let array := IrType.array elem items.length
  let slot ← build (.alloca array)
  storeItems array slot 0 items
  return slot

def functionType (prog : Program) (location : Location) (sig : Signature) :
    Except Error Ir.FunctionType := do
  let params ← paramTypes sig.declaredParams
  let res ← prog.irType location sig.result
  return { params, result := res, variadic := sig.variadic == .foreign, stdcall := sig.isStdcall }
where
  /-- No parameter is `void`. -/
  paramTypes : List TypeName → Except Error (List IrType)
  | [] => return []
  | ty :: types => do
    let lowered ← prog.irType location ty
    if lowered = .void then throw (.type location (.voidParameter sig.name))
    return lowered :: (← paramTypes types)

end TernLang.Lowering
