import TernLang.Machine.Fault

/-! Sizes, alignments and offsets. A type is first unfolded to a shape, in which structs show
their fields; layouts follow the shape. -/
namespace TernLang.Ir

/-- A type with its structs unfolded. -/
inductive Shape where
  | void
  | int (bits : Nat)
  | half
  | float
  | double
  | pointer
  | slice
  | array (elem : Shape) (count : Nat)
  | struct (name : String) (fields : List Shape) (packed : Bool)
  /-- A struct the module does not define. -/
  | undefined (name : String)
deriving Inhabited

namespace Shape

/-- Unfold a type, given the shapes of structs. -/
def ofType (struct : String → Shape) : IrType → Shape
  | .void => void
  | .int bits => int bits
  | .half => half
  | .float => float
  | .double => double
  | .pointer => pointer
  | .slice => slice
  | .array element count => array (ofType struct element) count
  | .struct name => struct name

def type : Shape → IrType
  | void => .void
  | int bits => .int bits
  | half => .half
  | float => .float
  | double => .double
  | pointer => .pointer
  | slice => .slice
  | array elem count => .array elem.type count
  | struct name _ _ | undefined name => .struct name

end Shape

namespace Module

/-- Unfold a struct. No struct contains itself, so nesting is no deeper than the table. -/
def structShape (mod : Module) : (fuel : Nat) → String → Shape
  | 0, name => .undefined name
  | fuel + 1, name => match mod.structs.get? name with
    | none => .undefined name
    | some found => .struct name (found.fields.map (Shape.ofType (structShape mod fuel))) found.packed

def shape (mod : Module) (type : IrType) : Shape :=
  Shape.ofType (mod.structShape mod.structs.size) type

end Module

structure Layout where
  size : Nat
  align : Nat
deriving DecidableEq

/-- The least power of two that is not smaller. -/
def powerAbove (n : Nat) : Nat := if n ≤ 1 then 1 else twoPow ((n - 1).log2 + 1)

/-- The least multiple of the alignment that is not smaller. -/
def alignTo (off align : Nat) : Nat :=
  if align ≤ 1 then off else (off + align - 1) / align * align

namespace Layout

def scalar (size : Nat) : Layout := ⟨size, size⟩

/-- Offsets of fields that follow each other from an offset, and where they end. -/
def place (packed : Bool) : (off : Nat) → List Layout → List Nat × Nat
  | off, [] => ([], off)
  | off, field :: fields =>
    let start := if packed then off else alignTo off field.align
    let (starts, finish) := place packed (start + field.size) fields
    (start :: starts, finish)

/-- Offsets of the fields of a struct. -/
def offsets (packed : Bool) (fields : List Layout) : List Nat := (place packed 0 fields).1

/-- Layout of a struct with these fields. -/
def struct (packed : Bool) (fields : List Layout) : Layout :=
  let align := if packed then 1 else (fields.map (·.align)).foldl max 1
  ⟨alignTo (place packed 0 fields).2 align, align⟩

end Layout

namespace Shape

mutual

def layout : Shape → Except LayoutError Layout
  | void => throw .void
  | int bits => return .scalar (powerAbove ((bits + 7) / 8))
  | half => return .scalar 2
  | float => return .scalar 4
  | double | pointer => return .scalar 8
  | slice => return ⟨16, 8⟩
  | array elem count => do
    let found ← elem.layout
    return ⟨found.size * count, found.align⟩
  | struct _ fields packed => do return .struct packed (← layouts fields)
  | undefined name => throw (.undefinedStruct name)

def layouts : List Shape → Except LayoutError (List Layout)
  | [] => return []
  | shape :: shapes => do
    let found ← shape.layout
    return found :: (← layouts shapes)

end

/-- Parts of a shape with their offsets. -/
def parts : Shape → Except LayoutError (List (Nat × Shape))
  | struct _ fields packed => do return (Layout.offsets packed (← layouts fields)).zip fields
  | slice => return [(0, pointer), (8, int 64)]
  | array element count => do
    let size := (← element.layout).size
    return (List.range count).map fun i => (i * size, element)
  | undefined name => throw (.undefinedStruct name)
  | other => throw (.notAggregate other.type)

/-- How many parts can be listed: a type takes 24 bytes, and a list less than `2 ^ 63`. -/
def capacity : Nat := (twoPow 63 - 8) / 24

/-- One part of a shape with its offset, for which all of them are listed. -/
def part? (idx : Nat) : Shape → Except LayoutError (Option (Nat × Shape))
  | array elem count => do
    if count > capacity then throw .capacity
    let size := (← elem.layout).size
    return if idx < count then some (idx * size, elem) else none
  | other => do return (← other.parts)[idx]?

end Shape

namespace Module

def layout (mod : Module) (type : IrType) : Except LayoutError Layout := (mod.shape type).layout

def size (mod : Module) (type : IrType) : Except LayoutError Nat := do
  return (← mod.layout type).size

def fieldOffset (mod : Module) (name : String) (idx : Nat) : Except LayoutError Nat := do
  match (← (mod.shape (.struct name)).parts)[idx]? with
  | some (off, _) => return off
  | none => throw (.noField name idx)

end Module
end TernLang.Ir
