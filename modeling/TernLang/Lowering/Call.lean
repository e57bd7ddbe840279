import TernLang.Lowering.Cast

/-! Calls, once their arguments are lowered. -/
namespace TernLang.Lowering

section
variable (ctx : Context) (line : Nat)

/-- Arguments past the fixed ones, as a slice over a stack array. -/
def packSlice (elem : TypeName) (items : List Typed) : Lower Ir.Value := do
  let empty := Ir.Value.zero .slice
  if items.isEmpty then return empty
  let ty ← ctx.program.irType (ctx.location line) elem
  let data ← stackArray ty (items.map (·.value))
  let slice ← build (.insertValue empty data 0)
  build (.insertValue slice (.int 64 items.length.toUInt64) 1)

def promoteList : List Typed → Lower (List Ir.Value)
  | [] => return []
  | arg :: args => do
    let val ← promote ctx line arg
    return val :: (← promoteList args)

/-- Arguments past the fixed ones, as the callee takes them. -/
def tailValues (variadic : Variadic) (rest : List Typed) : Lower (List Ir.Value) :=
  match variadic with
  | .none => return []
  | .tail elem => do return [← packSlice ctx line elem rest]
  | .foreign => promoteList ctx line rest

def emitCall (sig : Signature) (callee : Ir.Value) (args : List Typed) : Lower Typed := do
  let ty ← functionType ctx.program (ctx.location line) sig
  let fixed := sig.params.length
  let tail ← tailValues ctx line sig.variadic (args.drop fixed)
  let res ← build (.call callee ty ((args.take fixed).map (·.value) ++ tail))
  return ⟨res, sig.result⟩

/-- The type of a variable, if there is one of this name. -/
def variableType? (name : String) : Lower (Option TypeName) := do
  match (← get).scope.lookup? name with
  | some var => return some var.type
  | none => return (ctx.program.global? name).map (·.type)

/-- A variable that holds a function, loaded, with the signature it is called by. -/
def functionVariable? (name : String) : Lower (Option (Ir.Value × Signature)) := do
  match ← variableType? ctx name with
  | none => return none
  | some ty => match ← resolve ctx line ty with
    | .function params res isStdcall variadic => do
      let loaded ← loadFrom ctx line (← nameAddress ctx line name)
      let variadic : Variadic := if variadic then .foreign else .none
      return some (loaded.value, { name, symbol := name, params, result := res, variadic, isStdcall })
    | _ => return none

/-- Every argument may go to its parameter. -/
def expectArguments (name : String) : List TypeName → List TypeName → Lower Unit
  | found :: rest, param :: params => do
    expectInto ctx line found param (.argument name param)
    expectArguments name rest params
  | _, _ => return ()

def callVariable (name : String) (ptr : Ir.Value) (sig : Signature) (args : List Typed) :
    Lower Typed := do
  let fixed := sig.params.length
  let fits := if sig.isVariadic then args.length ≥ fixed else args.length = fixed
  if ! fits then failType ctx line (.argumentCount name fixed args.length)
  expectArguments ctx line name (args.map (·.type)) sig.params
  emitCall ctx line sig ptr args

/-- `name(args)`: a function, an external or a variable that holds a function. -/
def callNamed (name : String) (args : List Typed) : Lower Typed := do
  let types := args.map (·.type)
  match ← ctx.program.findCallable (ctx.location line) name types with
  | some sig => emitCall ctx line sig (.function sig.symbol) args
  | none => match ← functionVariable? ctx line name with
    | some (ptr, sig) => callVariable ctx line name ptr sig args
    | none => failName ctx line (.undeclaredCall name types)

/-- Private methods are called only inside their class. -/
def expectVisible (cls : Class) (sig : Signature) : Lower Unit := do
  let method? := cls.methods.find? fun m => (Signature.ofFunction m (some cls)).symbol == sig.symbol
  match method? with
  | some method =>
    if ! method.isPublic && ! ctx.insideClass cls.name then
      failName ctx line (.privateMethod cls.name method.name)
  | none => return ()

/-- The class a static call names. -/
def staticClass (name : String) : Lower Class :=
  match ctx.program.class? name with
  | some cls => return cls
  | none => failName ctx line (.undeclaredClass name)

/-- `Class::name(args)`. -/
def callStatic (cls : Class) (name : String) (args : List Typed) : Lower Typed := do
  let types := args.map (·.type)
  match ← ctx.program.findMethod (ctx.location line) cls name types true with
  | some sig => do
    expectVisible ctx line cls sig
    emitCall ctx line sig (.function sig.symbol) args
  | none => failName ctx line (.undeclaredStaticMethod cls.name name types)

/-- The class of an object whose address is given. -/
def objectClass (object : Typed) : Lower Class := do
  let resolved ← resolve ctx line object.type
  match resolved.bareName?.bind ctx.program.class? with
  | some cls => return cls
  | none => failType ctx line (.noMethods object.type)

/-- `object.name(args)`: the address of the object is the first argument. -/
def callMethod (cls : Class) (object : Typed) (name : String) (args : List Typed) : Lower Typed := do
  let types := args.map (·.type)
  match ← ctx.program.findMethod (ctx.location line) cls name types false with
  | some sig => do
    expectVisible ctx line cls sig
    let this : TypeName := .pointer (.named cls.name)
    let sig := { sig with params := this :: sig.params }
    emitCall ctx line sig (.function sig.symbol) (⟨object.value, this⟩ :: args)
  | none => failName ctx line (.undeclaredMethod cls.name name types)

end
end TernLang.Lowering
