import TernLang.Ir.Layout
import TernLang.Machine.Image

/-! Loading: every global with an initializer gets a region, in order. -/
namespace TernLang.Machine

def loadGlobal (mod : Ir.Module) (ty : IrType) (initializer : Ir.Initializer) (memory : Memory) :
    Except Fault (UInt64 × Memory) := do
  let (addr, memory) ← memory.allocate (← orFault (mod.size ty))
  match initializer with
  | .zero => return (addr, memory)
  | .bytes bytes => return (addr, ← memory.write addr bytes)

def loadGlobals (mod : Ir.Module) : List Ir.Global → Table String UInt64 → Memory →
    Except Fault (Table String UInt64 × Memory)
  | [], table, memory => return (table, memory)
  | global :: rest, table, memory => match global.initializer with
    | none => loadGlobals mod rest table memory
    | some initializer => do
      let (addr, memory) ← loadGlobal mod global.type initializer memory
      loadGlobals mod rest (table.insert global.name addr) memory

def loadModules : List Ir.Module → Memory → Except Fault (List Linked × Memory)
  | [], memory => return ([], memory)
  | mod :: rest, memory => do
    let (globals, memory) ← loadGlobals mod mod.globals.values .empty memory
    let (modules, memory) ← loadModules rest memory
    return ({ module := mod, globals } :: modules, memory)

/-- Memory with all globals, and the linked modules. -/
def load (modules : List Ir.Module) : Except Fault (Image × Memory) := do
  let (modules, memory) ← loadModules modules {}
  return ({ modules }, memory)

end TernLang.Machine
