import TernLang.Machine.Load
import TernLang.Machine.Step

/-! Running a program to its end. However it ends, the stack slots of all frames are released,
innermost first; a slot that was already released is a fault of its own. -/
namespace TernLang.Machine

structure Limits where
  /-- Instructions and terminators executed. -/
  steps : Nat := 50000000
  /-- Frames active at a time. -/
  depth : Nat := 512

/-- What a program leaves behind. -/
structure Outcome where
  exitCode : Int
  output : List UInt8

/-- A running program between two steps. -/
structure State where
  frame : Frame
  callers : List Caller := []
  store : Store

/-- Active frames, innermost first. -/
def State.frames (state : State) : List Frame := state.frame :: state.callers.map (·.frame)

/-- Release the slots of frames that will not go on; the last failure is the one that counts. -/
def unwind : List Frame → Memory → Halt → Halt
  | [], _, halt => halt
  | frame :: frames, memory, halt => match memory.releaseAll frame.slots with
    | .ok memory => unwind frames memory halt
    | .error cause => unwind frames memory (.fault cause)

/-- The end of a program that stopped in a state. Nothing is released where there is no report. -/
def stop (state : State) (halt : Halt) : Except Fault Outcome :=
  match if halt.isPanic then halt else unwind state.frames state.store.memory halt with
  | .exit code => return ⟨code, state.store.output.reverse⟩
  | .fault cause => throw cause

/-- Exit code of a returned value: an integer, else zero. -/
def exitCode (ty : IrType) (val : Slot) : Int :=
  match val, ty with
  | .int word, .int bits => Word.signed word bits
  | _, _ => 0

/-- Run for so many steps; `result` is the type of the value returned at the end. -/
def run (image : Image) (limits : Limits) (res : IrType) : (steps : Nat) → State → Except Fault Outcome
  | 0, state => stop state (.fault (.stepLimit limits.steps))
  | steps + 1, state =>
    match (advance image limits.depth state.frame state.callers).run state.store with
    | .ok (.running frame callers, store) => run image limits res steps ⟨frame, callers, store⟩
    | .ok (.returned val, store) => return ⟨exitCode res val, store.output.reverse⟩
    | .error halt => stop state halt

/-- Arguments of the entry are zero. -/
def entryArguments (mod : Ir.Module) : List IrType → Except Fault (List Slot)
  | [] => return []
  | ty :: types => do
    let slot ← orFault (zeroOf (mod.shape ty))
    return slot :: (← entryArguments mod types)

/-- Execute the entry of a module, which sees the public definitions of others. -/
def execute (mod : Ir.Module) (others : List Ir.Module) (entry : String) (limits : Limits) :
    Except Fault Outcome := do
  let (image, memory) ← load (mod :: others)
  match image.modules.head?.bind (image.definition? · entry) with
  | none => throw (.noEntry entry)
  | some (home, fn) => do
    let args ← entryArguments home.module fn.type.params
    if limits.depth = 0 then throw (.callDepth limits.depth fn.symbol)
    match Frame.enter? home fn args with
    | some frame => run image limits fn.type.result limits.steps { frame, store := { memory } }
    | none => throw (.noBlock fn.symbol 0)

end TernLang.Machine
