import TernLang.Ir

/-! Building a function instruction by instruction. Stack slots always go to the first block,
so that they come before every use; a block's first terminator stays. -/
namespace TernLang.Ir

structure Builder where
  function : Function
  /-- Index of the block that instructions go to. -/
  current : Nat := 0
  nextRegister : Nat := 0
  nextLabel : Nat := 0
  /-- Terminators that came to a block which had one. -/
  refused : List Terminator := []

abbrev Build := StateM Builder

namespace Builder

/-- A function with an empty first block. -/
def start (sym : String) (ty : FunctionType) : Builder :=
  { function := { symbol := sym, type := ty, blocks := [{ label := "entry" }] } }

/-- Change one block; an index without block changes nothing. -/
def modifyBlock (builder : Builder) (index : Nat) (change : Block → Block) : Builder :=
  { builder with function.blocks := builder.function.blocks.modify index change }

/-- Whether the current block has its terminator. -/
def isTerminated (builder : Builder) : Bool :=
  match builder.function.block? builder.current with
  | some block => block.terminator.isSome
  | none => false

end Builder

namespace Build

def freshRegister : Build Nat := modifyGet fun b => (b.nextRegister, { b with nextRegister := b.nextRegister + 1 })

def push (instr : Instruction) : Build Unit := modify fun b =>
  b.modifyBlock b.current fun block => { block with instructions := block.instructions ++ [instr] }

def terminate (term : Terminator) : Build Unit := modify fun b =>
  if b.isTerminated then { b with refused := b.refused ++ [term] }
  else b.modifyBlock b.current fun block => { block with terminator := some term }

/-- Emit an instruction that defines a register of the given type. -/
def emit (ty : IrType) (make : Nat → Instruction) : Build Value := do
  let res ← freshRegister
  push (make res)
  return .register res ty

/-- Labels get a number unless they are `body` or `quit`. -/
def appendBlock (hint : String) : Build Nat := modifyGet fun b =>
  let index := b.function.blocks.length
  let plain := hint == "body" || hint == "quit"
  let number := if plain then b.nextLabel else b.nextLabel + 1
  let label := if plain then hint else hint ++ toString number
  (index, { b with nextLabel := number, function.blocks := b.function.blocks ++ [{ label }] })

/-- Let instructions go to a block from now on. -/
def position (idx : Nat) : Build Unit := modify fun b => { b with current := idx }

def alloca (ty : IrType) : Build Value := do
  let res ← freshRegister
  modify fun b => b.modifyBlock 0 fun block =>
    { block with instructions := block.instructions ++ [.alloca res ty] }
  return .register res .pointer

def load (ty : IrType) (ptr : Value) : Build Value := emit ty (.load · ty ptr)

def store (val ptr : Value) : Build Unit := push (.store val ptr)

def elementPtr (base : IrType) (ptr : Value) (indices : List Value) : Build Value :=
  emit .pointer (.elementPtr · base ptr indices)

/-- Address of a field of a struct. -/
def fieldPtr (ty : IrType) (ptr : Value) (idx : Nat) : Build Value :=
  elementPtr ty ptr [.int 32 0, .int 32 idx.toUInt64]

def binary (op : BinaryInst) (left right : Value) : Build Value :=
  emit left.type (.binary · op left right)

def compare (predicate : Predicate) (left right : Value) : Build Value :=
  emit .bool (.compare · predicate left right)

def cast (op : CastOp) (val : Value) (tgt : IrType) : Build Value := emit tgt (.cast · op val tgt)

/-- A call without result defines no register. -/
def call (callee : Value) (ty : FunctionType) (args : List Value) : Build Value := do
  if ty.result = .void then
    push (.call none callee ty args)
    return .void
  else emit ty.result fun res => .call (some res) callee ty args

def extractValue (ty : IrType) (aggregate : Value) (idx : Nat) : Build Value :=
  emit ty (.extractValue · ty aggregate idx)

def insertValue (aggregate val : Value) (idx : Nat) : Build Value :=
  emit aggregate.type (.insertValue · aggregate val idx)

def branch (tgt : Nat) : Build Unit := terminate (.branch tgt)

def condBranch (cond : Value) (ifTrue ifFalse : Nat) : Build Unit :=
  terminate (.condBranch cond ifTrue ifFalse)

def ret (val : Option Value) : Build Unit := terminate (.ret val)

end Build
end TernLang.Ir
