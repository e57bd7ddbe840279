import TernLang.Machine.Directive
import TernLang.Machine.Image
import TernLang.Machine.Storage

/-! One step of a running program: an instruction or a terminator. Calls are data: the frames
of waiting callers lie below the running one. -/
namespace TernLang.Machine

open Ir (Shape Value Instruction)

/-- Why a program stops before it returns. -/
inductive Halt where
  | exit (code : Int)
  | fault (cause : Fault)

def Halt.isPanic : Halt → Bool
  | fault cause => cause.isPanic
  | exit _ => false

structure Store where
  memory : Memory := {}
  /-- Bytes written so far, the last one first. -/
  output : List UInt8 := []
  /-- Functions whose address was taken, in order; the address is the position here. -/
  symbols : List String := []

abbrev Exec := StateT Store (Except Halt)

def fail {α : Type} (cause : Fault) : Exec α := throw (.fault cause)

/-- Lift a computation that may fault. -/
def attempt {α : Type} : Except Fault α → Exec α
  | .ok a => return a
  | .error cause => fail cause

/-- Lift a computation on layouts. -/
def attemptLayout {α : Type} : Except Ir.LayoutError α → Exec α
  | .ok a => return a
  | .error cause => fail (.layout cause)

/-- A function in progress. -/
structure Frame where
  home : Linked
  function : Ir.Function
  /-- What is left of the current block. -/
  block : Ir.Block
  args : List Slot
  registers : Sparse Slot := .empty
  /-- Stack slots, the last one first. -/
  allocations : List UInt64 := []

namespace Frame

/-- A function about to start. -/
def enter? (home : Linked) (fn : Ir.Function) (args : List Slot) : Option Frame :=
  (fn.block? 0).map fun block => { home, function := fn, block, args }

def assign (frame : Frame) (reg : Nat) (slot : Slot) : Frame :=
  { frame with registers := frame.registers.insert reg slot }

def assign? (frame : Frame) (reg : Option Nat) (slot : Slot) : Frame :=
  match reg with
  | some reg => frame.assign reg slot
  | none => frame

/-- Go on at the start of a block. -/
def jump (frame : Frame) (tgt : Nat) : Exec Frame :=
  match frame.function.block? tgt with
  | some block => return { frame with block }
  | none => fail (.noBlock frame.function.symbol tgt)

/-- Stack slots in order of allocation. -/
def slots (frame : Frame) : List UInt64 := frame.allocations.reverse

end Frame

/-- A frame that waits for the result of a call. -/
structure Caller where
  frame : Frame
  result : Option Nat

/-- Address of a function; the first use of its address gives it one. -/
def functionAddress (symbol : String) : Exec UInt64 := do
  let symbols := (← get).symbols
  match symbols.findIdx? (· == symbol) with
  | some index => return functionTag ||| index.toUInt64
  | none => do
    modify fun store => { store with symbols := symbols ++ [symbol] }
    return functionTag ||| symbols.length.toUInt64

section
variable (image : Image) (frame : Frame)

def eval (val : Value) : Exec Slot :=
  match val.operand with
  | .register idx => match frame.registers.get? idx with
    | some slot => return slot
    | none => fail (.undefinedRegister idx)
  | .argument idx => match frame.args[idx]? with
    | some slot => return slot
    | none => fail (.missingArgument idx)
  | .int word => return .int word
  | .float real => return .float real
  | .null => return .pointer 0
  | .zero => attemptLayout (zeroOf (frame.home.module.shape val.type))
  | .global name => match image.global? frame.home name with
    | some addr => return .pointer addr
    | none => fail (.unresolvedGlobal name)
  | .function sym => do return .pointer (← functionAddress sym)

def evalWord (val : Value) : Exec UInt64 := do attempt (← eval image frame val).word

def evalList : List Value → Exec (List Slot)
  | [] => return []
  | val :: values => do
    let slot ← eval image frame val
    return slot :: (← evalList values)

/-- A signed index of its type's width. -/
def evalIndex (val : Value) : Exec Int := do
  return Word.signed (← evalWord image frame val) val.type.width

/-- Follow indices into a shape and sum the offsets. -/
def followIndices : Shape → List Value → (off : UInt64) → Exec UInt64
  | _, [], off => return off
  | shape, val :: values, off => do
    let idx ← evalIndex image frame val
    if idx < 0 then fail (.negativeIndex idx)
    match ← attemptLayout (shape.part? idx.toNat) with
    | some (start, part) => followIndices part values (off + start.toUInt64)
    | none => fail (.noElement shape.type idx)

/-- Offset of an element: the first index counts whole objects. -/
def elementOffset (base : IrType) : List Value → Exec UInt64
  | [] => return 0
  | first :: rest => do
    let shape := frame.home.module.shape base
    let layout ← attemptLayout shape.layout
    let idx ← evalIndex image frame first
    followIndices image frame shape rest (Word.ofInt idx * layout.size.toUInt64)

/-- The symbol a call goes to: named directly, or by its address. -/
def calleeSymbol (callee : Value) : Exec String :=
  match callee.operand with
  | .function sym => return sym
  | _ => do
    let addr ← evalWord image frame callee
    if addr &&& functionTag = 0 then fail (.notFunction addr)
    match (← get).symbols[(addr ^^^ functionTag).toNat]? with
    | some sym => return sym
    | none => fail (.noFunction addr)

/-- Any instruction but a call. -/
def perform (instr : Instruction) : Exec Frame :=
  match instr with
  | .alloca res ty => do
    let size ← attemptLayout (frame.home.module.size ty)
    let (addr, memory) ← attempt ((← get).memory.allocate size)
    modify fun store => { store with memory }
    return { frame with allocations := addr :: frame.allocations }.assign res (.pointer addr)
  | .load res ty ptr => do
    let addr ← evalWord image frame ptr
    return frame.assign res (← attempt (readShape (← get).memory (frame.home.module.shape ty) addr))
  | .store val ptr => do
    let addr ← evalWord image frame ptr
    let slot ← eval image frame val
    let memory ← attempt (writeShape (frame.home.module.shape val.type) slot addr (← get).memory)
    modify fun store => { store with memory }
    return frame
  | .elementPtr res base ptr indices => do
    let addr ← evalWord image frame ptr
    return frame.assign res (.pointer (addr + (← elementOffset image frame base indices)))
  | .binary res op left right => do
    let a ← eval image frame left
    let b ← eval image frame right
    return frame.assign res (← attempt (binary op left.type a b))
  | .compare res predicate left right => do
    let a ← eval image frame left
    let b ← eval image frame right
    let outcome ← attempt (compare predicate left.type a b)
    return frame.assign res (.int (if outcome then 1 else 0))
  | .cast res op val tgt => do
    let slot ← eval image frame val
    return frame.assign res (← attempt (cast op val.type slot tgt))
  | .extractValue res _ aggregate idx => do
    match ← eval image frame aggregate with
    | .aggregate items => match items[idx]? with
      | some item => return frame.assign res item
      | none => fail (.noItem idx)
    | other => fail (.extractFrom other)
  | .insertValue res aggregate val idx => do
    match ← eval image frame aggregate with
    | .aggregate items => do
      let slot ← eval image frame val
      if idx < items.length then return frame.assign res (.aggregate (items.set idx slot))
      else fail (.noItem idx)
    | other => fail (.insertInto other)
  | .call .. => return frame

end

/-- Write to the output. -/
def print (bytes : List UInt8) : Exec Unit :=
  modify fun store => { store with output := bytes.reverseAux store.output }

/-- An argument of a routine. -/
def routineArgument (name : String) (args : List Slot) (idx : Nat) : Exec UInt64 :=
  match args[idx]? with
  | some slot => attempt slot.word
  | none => fail (.missingHostArgument name idx)

/-- Routines of the surrounding system. -/
def callRoutine (name : String) (args : List Slot) : Exec Slot := do
  match name with
  | "puts" => do
    let text ← attempt ((← get).memory.text (← routineArgument name args 0))
    print (text ++ [10])
    return .int 1
  | "putchar" => do
    let character ← routineArgument name args 0
    print [character.toUInt8]
    return .int (Word.truncate character 32)
  | "printf" => do
    let memory := (← get).memory
    let text ← attempt (memory.text (← routineArgument name args 0))
    let written ← attempt (format memory text (args.drop 1))
    print written
    return .int written.length.toUInt64
  | "strlen" => do
    let text ← attempt ((← get).memory.text (← routineArgument name args 0))
    return .int text.length.toUInt64
  | "malloc" => do
    let size ← routineArgument name args 0
    let (addr, memory) ← attempt ((← get).memory.allocate size.toNat)
    modify fun store => { store with memory }
    return .pointer addr
  | "free" => do
    let addr ← routineArgument name args 0
    let memory ← attempt ((← get).memory.release addr)
    modify fun store => { store with memory }
    return .void
  | "abort" => fail .aborted
  | "exit" => do
    let code ← routineArgument name args 0
    throw (.exit (Word.signed code 32))
  | _ => fail (.unresolvedFunction name)

/-- Where execution is. -/
inductive Control where
  | running (frame : Frame) (callers : List Caller)
  | returned (val : Slot)

section
variable (image : Image) (maxDepth : Nat)

/-- Enter a function. `depth` frames are active. -/
def enter (depth : Nat) (home : Linked) (fn : Ir.Function) (args : List Slot) : Exec Frame := do
  if depth ≥ maxDepth then fail (.callDepth maxDepth fn.symbol)
  match Frame.enter? home fn args with
  | some frame => return frame
  | none => fail (.noBlock fn.symbol 0)

/-- A call. `frame` goes on behind it. -/
def performCall (frame : Frame) (callers : List Caller) (res : Option Nat) (callee : Value)
    (args : List Value) : Exec Control := do
  let sym ← calleeSymbol image frame callee
  let args ← evalList image frame args
  match image.definition? frame.home sym with
  | some (home, fn) => do
    let entered ← enter maxDepth (callers.length + 1) home fn args
    return .running entered (⟨frame, res⟩ :: callers)
  | none => do
    let val ← callRoutine sym args
    return .running (frame.assign? res val) callers

/-- Return a value to the caller; the frame's stack slots end. -/
def performReturn (frame : Frame) (callers : List Caller) (val : Option Value) : Exec Control := do
  let slot ← match val with
    | some val => eval image frame val
    | none => pure .void
  let memory ← attempt ((← get).memory.releaseAll frame.slots)
  modify fun store => { store with memory }
  match callers with
  | [] => return .returned slot
  | caller :: rest => return .running (caller.frame.assign? caller.result slot) rest

/-- The end of a block. -/
def leaveBlock (frame : Frame) (callers : List Caller) : Exec Control :=
  match frame.block.terminator with
  | some (.branch tgt) => do return .running (← frame.jump tgt) callers
  | some (.condBranch cond ifTrue ifFalse) => do
    let word ← evalWord image frame cond
    return .running (← frame.jump (if word ≠ 0 then ifTrue else ifFalse)) callers
  | some (.ret val) => performReturn image frame callers val
  | none => fail (.noTerminator frame.block.label frame.function.symbol)

/-- One instruction or terminator. -/
def advance (frame : Frame) (callers : List Caller) : Exec Control :=
  match frame.block.instructions with
  | [] => leaveBlock image frame callers
  | .call res callee _ args :: rest =>
    performCall image maxDepth { frame with block.instructions := rest } callers res callee args
  | instr :: rest => do
    return .running (← perform image { frame with block.instructions := rest } instr) callers

end
end TernLang.Machine
