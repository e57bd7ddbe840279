import TernLang.Proofs.Machine.Reach

/-! What single steps do, given the values of their operands. -/
namespace TernLang.Machine

open Success

def Frame.behind (frame : Frame) (rest : List Ir.Instruction) : Frame := { frame with block.instructions := rest }

namespace Frame

theorem assign?_eq (frame : Frame) (res : Option Nat) (slot : Slot) :
    ∃ registers, frame.assign? res slot = { frame with registers } ∧
      ∀ reg, registers.get? reg =
        if res = some reg then some slot else frame.registers.get? reg := by
  cases res with
  | none => exact ⟨frame.registers, rfl, fun _ => rfl⟩
  | some idx =>
    refine ⟨frame.registers.insert idx slot, rfl, fun reg => ?_⟩
    rw [Sparse.get?_insert]
    simp only [Option.some.injEq, eq_comm]

end Frame

theorem attempt_ok {α : Type} {x : Except Fault α} {val : α} (known : x = .ok val) (store : Store) :
    (attempt x).run store = .ok (val, store) := by
  rw [known]
  rfl

theorem attempt_error {α : Type} {x : Except Fault α} {cause : Fault} (known : x = .error cause)
    (store : Store) :
    (attempt x).run store = .error (.fault cause) := by
  rw [known]
  rfl

variable {slot : Slot} {memory : Memory} {addr : UInt64}

section
variable {image : Image} {maxDepth : Nat} {a : State} {rest : List Ir.Instruction}

theorem next_perform {instr : Ir.Instruction} (code : a.frame.block.instructions = instr :: rest)
    (plain : ∀ res callee ty args, instr ≠ .call res callee ty args) :
    next image maxDepth a = ((perform image (a.frame.behind rest) instr).run a.store).map
      fun (frame, store) => (.running frame a.callers, store) := by
  unfold next advance
  rw [code]
  cases instr with
  | call res callee ty args => exact absurd rfl (plain res callee ty args)
  | _ => rfl

theorem next_call {res : Option Nat} {callee : Ir.Value} {ty : Ir.FunctionType}
    {args : List Ir.Value} (code : a.frame.block.instructions = .call res callee ty args :: rest) :
    next image maxDepth a =
      (performCall image maxDepth (a.frame.behind rest) a.callers res callee args).run a.store := by
  unfold next advance
  rw [code]
  rfl

theorem next_leave (code : a.frame.block.instructions = []) :
    next image maxDepth a = (leaveBlock image a.frame a.callers).run a.store := by
  unfold next advance
  rw [code]

theorem next_branch {tgt : Nat} {block : Ir.Block} (code : a.frame.block.instructions = [])
    (ends : a.frame.block.terminator = some (.branch tgt))
    (found : a.frame.function.block? tgt = some block) :
    next image maxDepth a = .ok (.running { a.frame with block } a.callers, a.store) := by
  rw [next_leave code, leaveBlock, ends]
  simp only [Frame.jump, found]
  rfl

def resume (callers : List Caller) (slot : Slot) : Control :=
  match callers with
  | [] => .returned slot
  | caller :: rest => .running (caller.frame.assign? caller.result slot) rest

theorem next_ret {val : Option Ir.Value} (code : a.frame.block.instructions = [])
    (ends : a.frame.block.terminator = some (.ret val)) (void : val = none → slot = .void)
    (valued : ∀ v, val = some v → (eval image a.frame v).run a.store = .ok (slot, a.store))
    (released : a.store.memory.releaseAll a.frame.slots = .ok memory) :
    next image maxDepth a = .ok (resume a.callers slot, { a.store with memory }) := by
  rw [next_leave code, leaveBlock, ends]
  simp only [performReturn]
  cases val with
  | none =>
    rw [void rfl, run_bind_of_ok (show (pure .void : Exec Slot).run a.store = .ok (.void, a.store) from rfl),
      run_bind_of_ok (StateT.run_get a.store), run_bind_of_ok (attempt_ok released a.store)]
    cases a.callers <;> rfl
  | some v =>
    rw [run_bind_of_ok (valued v rfl), run_bind_of_ok (StateT.run_get a.store),
      run_bind_of_ok (attempt_ok released a.store)]
    cases a.callers <;> rfl

theorem next_condBranch {cond : Ir.Value} {ifTrue ifFalse : Nat} {word : UInt64} {block : Ir.Block}
    (code : a.frame.block.instructions = [])
    (ends : a.frame.block.terminator = some (.condBranch cond ifTrue ifFalse))
    (tested : (evalWord image a.frame cond).run a.store = .ok (word, a.store))
    (found : a.frame.function.block? (if word ≠ 0 then ifTrue else ifFalse) = some block) :
    next image maxDepth a = .ok (.running { a.frame with block } a.callers, a.store) := by
  rw [next_leave code, leaveBlock, ends]
  simp only [run_bind_of_ok tested, Frame.jump, found]
  rfl

end

variable {image : Image} {frame : Frame} {store : Store}

theorem perform_alloca {res size : Nat} {ty : IrType} (sized : frame.home.module.size ty = .ok size)
    (allocates : store.memory.allocate size = .ok (addr, memory)) :
    (perform image frame (.alloca res ty)).run store =
      .ok ({ frame with allocations := addr :: frame.allocations }.assign res (.pointer addr),
        { store with memory }) := by
  have known : (attemptLayout (frame.home.module.size ty)).run store = .ok (size, store) := by
    rw [sized]
    rfl
  rw [perform, run_bind_of_ok known, run_bind_of_ok (StateT.run_get store),
    run_bind_of_ok (attempt_ok allocates store)]
  rfl

theorem perform_load {res : Nat} {ty : IrType} {ptr : Ir.Value}
    (pointed : (evalWord image frame ptr).run store = .ok (addr, store))
    (reads : readShape store.memory (frame.home.module.shape ty) addr = .ok slot) :
    (perform image frame (.load res ty ptr)).run store = .ok (frame.assign res slot, store) := by
  rw [perform, run_bind_of_ok pointed, run_bind_of_ok (StateT.run_get store), run_bind_of_ok (attempt_ok reads store)]
  rfl

theorem perform_store {val ptr : Ir.Value}
    (pointed : (evalWord image frame ptr).run store = .ok (addr, store))
    (valued : (eval image frame val).run store = .ok (slot, store))
    (writes : writeShape (frame.home.module.shape val.type) slot addr store.memory = .ok memory) :
    (perform image frame (.store val ptr)).run store = .ok (frame, { store with memory }) := by
  rw [perform, run_bind_of_ok pointed, run_bind_of_ok valued, run_bind_of_ok (StateT.run_get store),
    run_bind_of_ok (attempt_ok writes store)]
  rfl

section
variable {res : Nat} {left right val : Ir.Value} {a b : Slot} {op : Ir.BinaryInst}

section
variable (first : (eval image frame left).run store = .ok (a, store))
include first

section
variable (second : (eval image frame right).run store = .ok (b, store))
include second

theorem perform_binary (computes : binary op left.type a b = .ok slot) :
    (perform image frame (.binary res op left right)).run store =
      .ok (frame.assign res slot, store) := by
  rw [perform, run_bind_of_ok first, run_bind_of_ok second, run_bind_of_ok (attempt_ok computes store)]
  rfl

theorem perform_binary_fault {cause : Fault} (faults : binary op left.type a b = .error cause) :
    (perform image frame (.binary res op left right)).run store = .error (.fault cause) := by
  rw [perform, run_bind_of_ok first, run_bind_of_ok second, run_bind_of_error (attempt_error faults store)]

theorem perform_compare {predicate : Ir.Predicate} {outcome : Bool}
    (compares : compare predicate left.type a b = .ok outcome) :
    (perform image frame (.compare res predicate left right)).run store =
      .ok (frame.assign res (.int (if outcome then 1 else 0)), store) := by
  rw [perform, run_bind_of_ok first, run_bind_of_ok second, run_bind_of_ok (attempt_ok compares store)]
  rfl

end

end

theorem perform_cast {op : Ir.CastOp} {tgt : IrType}
    (valued : (eval image frame val).run store = .ok (a, store))
    (casts : cast op val.type a tgt = .ok b) :
    (perform image frame (.cast res op val tgt)).run store = .ok (frame.assign res b, store) := by
  rw [perform, run_bind_of_ok valued, run_bind_of_ok (attempt_ok casts store)]
  rfl

end

end TernLang.Machine
