import TernLang.Program
import TernLang.Syntax.Copy

/-! Merging the public declarations of an imported program. Categories merge in a fixed
order. What is already there from the same file is skipped, so a file that is reached on two
ways merges once; any other declaration of a taken name is a clash. What was merged before a
clash stays. -/
namespace TernLang

abbrev Merge := ExceptT Error (StateM Program)

/-- Record a file to link against, once. A real dependency replaces a placeholder. -/
def Program.addDependency (prog : Program) (dep : Dependency) : Program :=
  let deps := match prog.dependencies.findIdx? (·.file.same dep.file) with
    | some idx => prog.dependencies.modify idx fun existing =>
        if existing.isPlaceholder && ! dep.isPlaceholder then dep else existing
    | none => prog.dependencies ++ [dep]
  { prog with dependencies := deps }

namespace Merge

def clash (name : String) (cat : Category) (loc : Location) : Merge Unit :=
  throw (.name loc (.importClash name cat))

/-- Fail if anything has the name. -/
def expectFree (name : String) (loc : Location) : Merge Unit := do
  match (← get).declared? name with
  | some cat => clash name cat loc
  | none => return ()

/-- Fail if the name is not one of callables, or these parameters are taken. -/
def expectFreeCallable (name : String) (params : List TypeName) (loc : Location) : Merge Unit := do
  let prog ← get
  match prog.valueNamed? name with
  | some cat => clash name cat loc
  | none =>
    if prog.hasFunctionLike name params then clash name .function loc
    else if prog.hasExternalLike name params then clash name .external loc

/-- Add an external unless it is there from the same file. -/
def addExternal (ext : External) : Merge Unit := do
  let known := (← get).externals.any fun e =>
    e.name == ext.name && e.origin.same ext.origin && e.params == ext.params
  if known then return
  expectFreeCallable ext.name ext.params ⟨ext.origin, ext.line⟩
  modify fun p => { p with externals := p.externals ++ [ext] }

/-- A function of another file is an external with a mangled symbol. -/
def asExternal (isPublic : Bool) (fn : Function) : External :=
  { name := fn.name
    params := fn.paramTypes
    result := fn.result
    isPublic
    isMangled := true
    isStdcall := fn.isStdcall
    isVariadic := fn.isVariadic
    line := fn.line
    origin := fn.origin }

def addStructure (isPublic : Bool) (struct : Structure) : Merge Unit := do
  if (← get).structures.any fun s => s.name == struct.name && s.origin.same struct.origin then return
  expectFree struct.name ⟨struct.origin, struct.line⟩
  modify fun p => { p with structures := p.structures ++ [{ struct with isPublic }] }

/-- A class of another file keeps its public methods, without their bodies. -/
def asImported (isPublic : Bool) (classOffset : Nat) (cls : Class) : Class :=
  let methods := (cls.methods.filter (·.isPublic)).map fun method =>
    { method with isExternal := true, body := [], classOffset }
  { cls with isPublic, isImported := true, methods }

def addClass (isPublic : Bool) (cls : Class) : Merge Unit := do
  if (← get).classes.any fun c => c.name == cls.name && c.origin.same cls.origin then return
  expectFree cls.name ⟨cls.origin, cls.line⟩
  modify fun p => { p with classes := p.classes ++ [asImported isPublic (p.classes.length + 1) cls] }

/-- A constant brings its value along, with the constants of its own file expanded. -/
def addConstant (isPublic : Bool) (values : List (String × Expr)) (const : Constant) : Merge Unit := do
  if (← get).constants.any fun c => c.name == const.name && c.origin.same const.origin then return
  expectFree const.name ⟨const.origin, const.line⟩
  modify fun p =>
    let (val, nodes) := (const.value.copyOut values).run p.nodes
    { p with nodes, constants := p.constants ++ [{ const with value := val, isPublic }] }

def addGlobal (isPublic : Bool) (glob : Global) : Merge Unit := do
  if (← get).globals.any fun g => g.name == glob.name && g.origin.same glob.origin then return
  expectFree glob.name ⟨glob.origin, glob.line⟩
  modify fun p => { p with globals := p.globals ++ [{ glob with isPublic, isImported := true }] }

def addAlias (isPublic : Bool) (entry : Alias) : Merge Unit := do
  if (← get).aliases.any fun a => a.name == entry.name && a.origin.same entry.origin then return
  expectFree entry.name ⟨entry.origin, entry.line⟩
  modify fun p => { p with aliases := p.aliases ++ [{ entry with isPublic }] }

def addEnumeration (isPublic : Bool) (enum_ : Enumeration) : Merge Unit := do
  if (← get).enums.any fun e => e.name == enum_.name && e.origin.same enum_.origin then return
  expectFree enum_.name ⟨enum_.origin, enum_.line⟩
  modify fun p => { p with enums := p.enums ++ [{ enum_ with isPublic }] }

/-- Items that are not yet in a list, in order. -/
def union (items : List String) : List String → List String
  | [] => items
  | item :: rest => union (if items.contains item then items else items ++ [item]) rest

def addLibraries (other : Program) : Merge Unit := modify fun p =>
  { p with
    linkLibraries := union p.linkLibraries other.linkLibraries
    dynamicLibraries := union p.dynamicLibraries other.dynamicLibraries }

/-- Remember that a file was merged in. -/
def addRecord (entry : ImportRecord) : Merge Unit := modify fun p =>
  if p.imports.any (·.file.same entry.file) then p else { p with imports := p.imports ++ [entry] }

/-- The whole merge. Imported declarations take the given visibility. -/
def all (other : Program) (isPublic : Bool) : Merge Unit := do
  modify fun p => other.dependencies.foldl Program.addDependency p
  (other.functions.filter (·.isPublic)).forM fun f => addExternal (asExternal isPublic f)
  (other.structures.filter (·.isPublic)).forM (addStructure isPublic)
  (other.classes.filter (·.isPublic)).forM (addClass isPublic)
  (other.externals.filter (·.isPublic)).forM fun e => addExternal { e with isPublic }
  addLibraries other
  let values := other.constants.map fun c => (c.name, c.value)
  (other.constants.filter (·.isPublic)).forM (addConstant isPublic values)
  (other.globals.filter (·.isPublic)).forM (addGlobal isPublic)
  (other.aliases.filter (·.isPublic)).forM (addAlias isPublic)
  (other.enums.filter (·.isPublic)).forM (addEnumeration isPublic)
  addRecord ⟨other.file, isPublic⟩
  (other.imports.filter (·.isPublic)).forM fun r => addRecord ⟨r.file, isPublic⟩

end Merge

/-- Merge another program in; with a failure comes what was merged before it. -/
def Program.merge (prog other : Program) (isPublic : Bool) : Except Error Unit × Program :=
  (Merge.all other isPublic).run.run prog

end TernLang
