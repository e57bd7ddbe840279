import TernLang.Typing.Join

/-! Callables: their symbols, and which of several takes given arguments. -/
namespace TernLang

/-- What a callable does with arguments beyond its fixed parameters. -/
inductive Variadic where
  | none
  /-- They are packed into a slice of this element type. -/
  | tail (elem : TypeName)
  /-- They may have any type and are passed as they are. -/
  | foreign
deriving DecidableEq

structure Signature where
  name : String
  /-- The symbol the callable is known by in lowered code. -/
  symbol : String
  /-- Fixed parameters. -/
  params : List TypeName
  result : TypeName
  variadic : Variadic
  isStdcall : Bool
deriving DecidableEq

/-- Symbol of a function with given parameter types. `main` keeps its name. -/
def mangle (name : String) (params : List TypeName) : String :=
  if name = "main" then name
  else name ++ "$" ++ String.intercalate "$" (params.map TypeName.text)

namespace Signature

def ofFunction (fn : Function) (owner : Option Class) : Signature :=
  let params := fn.paramTypes
  let name := match owner with
    | some cls => cls.name ++ "." ++ fn.name
    | none => fn.name
  let (fixed, variadic) : List TypeName × Variadic := match fn.tail? with
    | some elem => (params.dropLast, .tail elem)
    | none => (params, .none)
  { name := fn.name
    symbol := mangle name params
    params := fixed
    result := fn.result
    variadic
    isStdcall := fn.isStdcall }

/-- Parameters and tail of an external: an imported function keeps its slice. -/
def externalParams (ext : External) : List TypeName × Variadic :=
  if ! ext.isVariadic then (ext.params, .none)
  else if ! ext.isMangled then (ext.params, .foreign)
  else match ext.params.getLast?.bind TypeName.element? with
    | some elem => (ext.params.dropLast, .tail elem)
    | none => (ext.params, .foreign)

def ofExternal (ext : External) : Signature :=
  let (fixed, variadic) := externalParams ext
  { name := ext.name
    symbol := if ext.isMangled then mangle ext.name ext.params else ext.name
    params := fixed
    result := ext.result
    variadic
    isStdcall := ext.isStdcall }

def isVariadic (sig : Signature) : Bool := sig.variadic != .none

/-- Parameters as declared, the slice of a tail included. -/
def declaredParams (sig : Signature) : List TypeName :=
  match sig.variadic with
  | .tail elem => sig.params ++ [.array elem]
  | _ => sig.params

/-- The type of a pointer to the callable. -/
def pointerType (sig : Signature) : TypeName :=
  .function sig.declaredParams sig.result sig.isStdcall
    (sig.variadic == .foreign)

end Signature

namespace Program

/-- Whether each argument may go to its parameter, pair by pair. -/
def pairsJoin (prog : Program) (loc : Location) :
    List TypeName → List TypeName → Except Error Bool
  | arg :: args, param :: params => do
    if (← prog.joinInto loc arg param).isSome then prog.pairsJoin loc args params
    else return false
  | _, _ => return true

/-- Whether every argument may go to the element of a tail. -/
def allJoin (prog : Program) (loc : Location) (elem : TypeName) :
    List TypeName → Except Error Bool
  | [] => return true
  | arg :: args => do
    if (← prog.joinInto loc arg elem).isSome then prog.allJoin loc elem args
    else return false

/-- Whether a callable takes arguments of these types. -/
def accepts (prog : Program) (loc : Location) (args : List TypeName)
    (sig : Signature) : Except Error Bool := do
  let fixed := sig.params.length
  let fits := if sig.isVariadic then args.length ≥ fixed else args.length = fixed
  if ! fits then return false
  if ! (← prog.pairsJoin loc args sig.params) then return false
  match sig.variadic with
  | .tail elem => prog.allJoin loc elem (args.drop fixed)
  | _ => return true

/-- The first candidate that accepts the arguments. -/
def firstAccepting (prog : Program) (loc : Location) (args : List TypeName) :
    List Signature → Except Error (Option Signature)
  | [] => return none
  | sig :: rest => do
    if ← prog.accepts loc args sig then return some sig
    else prog.firstAccepting loc args rest

/-- The choice among candidates: those without a tail come first. -/
def choose (prog : Program) (loc : Location) (args : List TypeName)
    (candidates : List Signature) : Except Error (Option Signature) := do
  match ← prog.firstAccepting loc args (candidates.filter (! ·.isVariadic)) with
  | some sig => return some sig
  | none => prog.firstAccepting loc args (candidates.filter (·.isVariadic))

/-- Free callables of a name, functions before externals. -/
def callablesNamed (prog : Program) (name : String) : List Signature :=
  (prog.functions.filter (·.name == name)).map (Signature.ofFunction · none) ++
    (prog.externals.filter (·.name == name)).map Signature.ofExternal

/-- The callable of this name that takes these arguments. -/
def findCallable (prog : Program) (loc : Location) (name : String) (args : List TypeName) :
    Except Error (Option Signature) :=
  prog.choose loc args (prog.callablesNamed name)

/-- Methods of a name as seen by a call, without `this`. -/
def methodsNamed (cls : Class) (name : String) (isStatic : Bool) : List Signature :=
  (cls.methods.filter fun m => m.name == name && m.isStatic == isStatic).map fun method =>
    let sig := Signature.ofFunction method (some cls)
    if isStatic then sig else { sig with params := sig.params.drop 1 }

def findMethod (prog : Program) (loc : Location) (cls : Class) (name : String)
    (args : List TypeName) (isStatic : Bool) : Except Error (Option Signature) :=
  prog.choose loc args (methodsNamed cls name isStatic)

/-- The first candidate declared with exactly these resolved parameters. -/
def firstDeclared (prog : Program) (loc : Location) (wanted : List TypeName) :
    List Signature → Except Error (Option Signature)
  | [] => return none
  | sig :: rest => do
    if (← sig.declaredParams.mapM (prog.resolve loc)) = wanted then return some sig
    else prog.firstDeclared loc wanted rest

/-- The callable a function value names. Without parameter types the name has to be
unambiguous; with them they have to be those declared. -/
def findExact (prog : Program) (loc : Location) (name : String)
    (params : Option (List TypeName)) : Except Error (Option Signature) := do
  let candidates := prog.callablesNamed name
  match params with
  | none => match candidates with
    | [] => return none
    | [sig] => return some sig
    | _ => throw (.name loc (.overloaded name))
  | some params => do
    let wanted ← params.mapM (prog.resolve loc)
    prog.firstDeclared loc wanted candidates

end Program
end TernLang
