import TernLang.Batch
import TernLang.Lowering.Stmt

/-! Lowering of a program to a module, in fixed steps: structs, globals, externals, prototypes
of all functions, then their bodies. -/
namespace TernLang

namespace Lowering

/-- Parameters live in stack slots like any other variable. -/
def storeParams (ctx : Context) : (idx : Nat) → List Field → Lower Unit
  | _, [] => return ()
  | idx, param :: params => do
    let line := ctx.function.line
    let ty ← ctx.program.irType (ctx.location line) param.type
    let slot ← build (.alloca ty)
    build (.store ⟨.argument idx, ty⟩ slot)
    defineVariable ctx line param.name slot param.type (.duplicateParameter param.name)
    storeParams ctx (idx + 1) params

/-- The result starts as zero; a function without result has no slot for it. -/
def prepareExit (ctx : Context) : Lower (Option ExitSlot) := do
  let ty ← ctx.program.irType (ctx.location ctx.function.line) ctx.function.result
  if ty = .void then return none
  let ptr ← build (.alloca ty)
  build (.store (.zero ty) ptr)
  return some ⟨ptr, ty⟩

def lowerQuit (exit : Option ExitSlot) : Lower Unit := do
  build (.position quitBlock)
  match exit with
  | some slot => do
    let val ← build (.load slot.type slot.pointer)
    build (.ret (some val))
  | none => build (.ret none)

/-- A whole function: slots, body and return. -/
def lowerFunction (ctx : Context) : Lower Unit := do
  let _ ← build (.appendBlock "body")
  let _ ← build (.appendBlock "quit")
  build (.position bodyBlock)
  storeParams ctx 0 ctx.function.params
  let exit ← prepareExit ctx
  let left ← lowerBlock { ctx with exit } ctx.function.body
  if ! left then build (.branch quitBlock)
  build (.position entryBlock)
  build (.branch bodyBlock)
  lowerQuit exit

/-- Lowered types of members, none of which is `void`. -/
def memberTypes (prog : Program) (loc : Location) : List Field → Except Error (List IrType)
  | [] => return []
  | field :: fields => do
    let lowered ← prog.irType loc field.type
    if lowered = .void then throw (.type loc (.voidMember field.name field.type))
    return lowered :: (← memberTypes prog loc fields)

/-- Instance fields without their visibility. -/
def instanceMembers (cls : Class) : List Field :=
  cls.instanceFields.map fun field => ⟨field.name, field.type⟩

def lowerStructures (prog : Program) : List Structure → Ir.Module → Except Error Ir.Module
  | [], mod => return mod
  | struct :: rest, mod => do
    let fields ← memberTypes prog ⟨struct.origin, struct.line⟩ struct.members
    lowerStructures prog rest
      { mod with structs := mod.structs.insert struct.name ⟨fields, struct.isPacked⟩ }

def lowerInstances (prog : Program) : List Class → Ir.Module → Except Error Ir.Module
  | [], mod => return mod
  | cls :: rest, mod => do
    let fields ← memberTypes prog ⟨cls.origin, cls.line⟩ (instanceMembers cls)
    lowerInstances prog rest
      { mod with structs := mod.structs.insert cls.name ⟨fields, false⟩ }

structure Storage where
  symbol : String
  type : TypeName
  /-- Another module has it. -/
  isElsewhere : Bool
  location : Location

/-- Globals, then static fields of classes. -/
def storages (prog : Program) : List Storage :=
  let globals := prog.globals.map fun global =>
    ⟨global.name, global.type, global.isImported || global.isExternal, global.origin, global.line⟩
  let statics := prog.classes.map fun cls =>
    (cls.members.filter (·.isStatic)).map fun field =>
      ⟨cls.staticSymbol field.name, field.type, cls.isImported, cls.origin, cls.line⟩
  globals ++ statics.flatten

def lowerStorage (prog : Program) (storage : Storage) : Except Error Ir.Global := do
  let ty ← prog.irType storage.location storage.type
  if ty = .void then throw (.type storage.location (.voidGlobal storage.symbol))
  return { name := storage.symbol, type := ty, initializer := if storage.isElsewhere then none else some .zero }

/-- Symbol and lowered signature of an external. -/
def lowerExternal (prog : Program) (ext : External) : Except Error (String × Ir.FunctionType) := do
  let sig := Signature.ofExternal ext
  return (sig.symbol, ← functionType prog ⟨ext.origin, ext.line⟩ sig)

/-- Free functions, then the methods of each class. -/
def allFunctions (prog : Program) : List (Function × Option Class) :=
  prog.functions.map (·, none) ++
    (prog.classes.map fun cls => cls.methods.map (·, some cls)).flatten

/-- Prototypes replace what has their symbol. -/
def declareAll (prog : Program) : List (Function × Option Class) → Ir.Module → Except Error Ir.Module
  | [], mod => return mod
  | (fn, owner) :: rest, mod => do
    let sig := Signature.ofFunction fn owner
    let ty ← functionType prog fn.location sig
    declareAll prog rest (mod.putFunction { symbol := sig.symbol, type := ty })

/-- Bodies, except of functions that are compiled elsewhere. -/
def defineAll (prog : Program) : List (Function × Option Class) → Ir.Module → Except Error Ir.Module
  | [], mod => return mod
  | (fn, owner) :: rest, mod => do
    if fn.isExternal then defineAll prog rest mod
    else do
      let sig := Signature.ofFunction fn owner
      let ty ← functionType prog fn.location sig
      let start : State := { module := mod, builder := .start sig.symbol ty }
      let ((), state) ← (lowerFunction { program := prog, function := fn }).run start
      defineAll prog rest (state.module.putFunction state.builder.function)

/-- A module is named for its file. -/
def moduleName (file : Path) : String := (file.fileName?.map String.ofList).getD "module"

end Lowering

open Lowering in
/-- Lower a program. Globals and externals are independent and go through batches; the number
of workers does not show in the result. -/
def Program.lower (prog : Program) (workers : Nat) : Except Error Ir.Module := do
  let mod : Ir.Module := { name := moduleName prog.file }
  let mod ← lowerStructures prog prog.structures mod
  let mod ← lowerInstances prog prog.classes mod
  let globals ← Batch.run workers (storages prog) (lowerStorage prog)
  let mod := globals.foldl (fun m g => { m with globals := m.globals.insert g.name g }) mod
  let externals ← Batch.run workers prog.externals (lowerExternal prog)
  let mod := externals.foldl (fun m (sym, ty) => m.declare sym ty) mod
  let mod ← declareAll prog (allFunctions prog) mod
  defineAll prog (allFunctions prog) mod

end TernLang
