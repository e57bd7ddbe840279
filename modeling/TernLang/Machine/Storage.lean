import TernLang.Ir.Layout
import TernLang.Machine.Arithmetic
import TernLang.Machine.Memory

/-! Values in memory, by the shape of their type. -/
namespace TernLang.Machine

open Ir (Shape)

mutual

/-- The all-zero value of a shape. -/
def zeroOf : Shape → Except Ir.LayoutError Slot
  | .void => return .void
  | .int _ => return .int 0
  | .half | .float | .double => return .float .zero
  | .pointer => return .pointer 0
  | .slice => return .aggregate [.pointer 0, .int 0]
  | .array _ 0 => return .aggregate []
  | .array elem (count + 1) => do
    if count + 1 > Shape.capacity then throw .capacity
    return .aggregate (List.replicate (count + 1) (← zeroOf elem))
  | .struct _ fields _ => do return .aggregate (← zeroOfList fields)
  | .undefined name => throw (.undefinedStruct name)

def zeroOfList : List Shape → Except Ir.LayoutError (List Slot)
  | [] => return []
  | shape :: shapes => do
    let zero ← zeroOf shape
    return zero :: (← zeroOfList shapes)

end

/-- Offsets of a struct's fields. -/
def fieldOffsets (fields : List Shape) (packed : Bool) : Except Fault (List Nat) :=
  match Shape.layouts fields with
  | .ok layouts => .ok (Ir.Layout.offsets packed layouts)
  | .error cause => .error (.layout cause)

/-- Size of a shape. -/
def sizeOfShape (shape : Shape) : Except Fault Nat :=
  match shape.layout with
  | .ok layout => .ok layout.size
  | .error cause => .error (.layout cause)

/-- Run an action for each element of an array, which lie `stride` bytes apart. -/
def collectEach {α : Type} (action : UInt64 → Except Fault α) (stride : Nat) :
    (count : Nat) → (addr : UInt64) → Except Fault (List α)
  | 0, _ => return []
  | count + 1, addr => do
    let item ← action addr
    return item :: (← collectEach action stride count (addr + stride.toUInt64))

mutual

/-- The value of a shape at an address. -/
def readShape (memory : Memory) : Shape → UInt64 → Except Fault Slot
  | .void, _ => throw .loadVoid
  | .int bits, addr => do
    let bytes ← memory.read addr (← sizeOfShape (.int bits))
    return .int (Word.truncate (Word.ofBytes bytes).toUInt64 bits)
  | .half, addr => do
    return .float (Half.toBinary64 (Word.ofBytes (← memory.read addr 2)).toUInt16)
  | .float, addr => do
    return .float (Binary32.mk (Word.ofBytes (← memory.read addr 4)).toUInt32).widen
  | .double, addr => do return .float ⟨(Word.ofBytes (← memory.read addr 8)).toUInt64⟩
  | .pointer, addr => do return .pointer (Word.ofBytes (← memory.read addr 8)).toUInt64
  | .slice, addr => do
    let data ← memory.read addr 8
    let length ← memory.read (addr + 8) 8
    return .aggregate [.pointer (Word.ofBytes data).toUInt64, .int (Word.ofBytes length).toUInt64]
  | .array elem count, addr => do
    if count > Shape.capacity then throw (.layout .capacity)
    let stride ← sizeOfShape elem
    return .aggregate (← collectEach (readShape memory elem) stride count addr)
  | .struct _ fields packed, addr => do
    return .aggregate (← readFields memory fields (← fieldOffsets fields packed) addr)
  | .undefined name, _ => throw (.layout (.undefinedStruct name))

def readFields (memory : Memory) : List Shape → List Nat → UInt64 → Except Fault (List Slot)
  | shape :: shapes, off :: offsets, addr => do
    let item ← readShape memory shape (addr + off.toUInt64)
    return item :: (← readFields memory shapes offsets addr)
  | _, _, _ => return []

end

/-- Store items one after another, `stride` bytes apart. -/
def storeEach (store : Slot → UInt64 → Memory → Except Fault Memory) (stride : Nat) :
    (count : Nat) → List Slot → UInt64 → Memory → Except Fault Memory
  | count + 1, item :: items, addr, memory => do
    let memory ← store item addr memory
    storeEach store stride count items (addr + stride.toUInt64) memory
  | _, _, _, memory => return memory

mutual

/-- Store a value of a shape at an address. -/
def writeShape : Shape → Slot → UInt64 → Memory → Except Fault Memory
  | .int bits, slot, addr, memory => do
    let size ← sizeOfShape (.int bits)
    memory.write addr (Word.bytes (← slot.word) size)
  | .pointer, slot, addr, memory => do memory.write addr (Word.bytes (← slot.word) 8)
  | .half, slot, addr, memory => do
    memory.write addr (Word.bytes (Half.ofBinary64 (← slot.real)).toUInt64 2)
  | .float, slot, addr, memory => do
    memory.write addr (Word.bytes (← slot.real).narrow.bits.toUInt64 4)
  | .double, slot, addr, memory => do memory.write addr (Word.bytes (← slot.real).bits 8)
  | .slice, .aggregate items, addr, memory => match items with
    | [] => return memory
    | data :: rest => do
      let memory ← memory.write addr (Word.bytes (← data.word) 8)
      match rest with
      | [] => return memory
      | length :: _ => memory.write (addr + 8) (Word.bytes (← length.word) 8)
  | .array elem count, .aggregate items, addr, memory => do
    if count > Shape.capacity then throw (.layout .capacity)
    let stride ← sizeOfShape elem
    storeEach (writeShape elem) stride count items addr memory
  | .struct _ fields packed, .aggregate items, addr, memory => do
    writeFields fields (← fieldOffsets fields packed) items addr memory
  | .undefined name, .aggregate _, _, _ => throw (.layout (.undefinedStruct name))
  | shape, slot, _, _ => throw (.cannotStore slot shape.type)

def writeFields : List Shape → List Nat → List Slot → UInt64 → Memory → Except Fault Memory
  | shape :: shapes, off :: offsets, item :: items, addr, memory => do
    let memory ← writeShape shape item (addr + off.toUInt64) memory
    writeFields shapes offsets items addr memory
  | _, _, _, _, memory => return memory

end

end TernLang.Machine
