import TernLang.Machine.Memory

/-! A program in memory: modules that see each other's public functions and globals. A name
means what its own module defines, else what the first module with a public definition does. -/
namespace TernLang.Machine

/-- A module with the addresses of the globals it defines. -/
structure Linked where
  module : Ir.Module
  globals : Table String UInt64 := .empty

namespace Linked

/-- A body of the module, internal ones included. -/
def definition? (linked : Linked) (sym : String) : Option Ir.Function :=
  (linked.module.function? sym).filter (! ·.isDeclaration)

/-- A body that other modules see. -/
def publicDefinition? (linked : Linked) (sym : String) : Option Ir.Function :=
  (linked.definition? sym).filter (! ·.internal)

/-- Address of a global that other modules see. -/
def publicGlobal? (linked : Linked) (name : String) : Option UInt64 :=
  match linked.module.globals.get? name with
  | some global => if global.hidden then none else linked.globals.get? name
  | none => none

end Linked

structure Image where
  modules : List Linked

namespace Image

/-- The function a symbol means in a module, with the module that defines it. -/
def definition? (image : Image) (home : Linked) (sym : String) : Option (Linked × Ir.Function) :=
  match home.definition? sym with
  | some fn => some (home, fn)
  | none => image.modules.findSome? fun linked => (linked.publicDefinition? sym).map (linked, ·)

/-- The address a global's name means in a module. -/
def global? (image : Image) (home : Linked) (name : String) : Option UInt64 :=
  match home.globals.get? name with
  | some addr => some addr
  | none => image.modules.findSome? (·.publicGlobal? name)

end Image

/-- Lift a failure of layout. -/
def orFault {α : Type} : Except Ir.LayoutError α → Except Fault α
  | .ok a => .ok a
  | .error cause => .error (.layout cause)

end TernLang.Machine
