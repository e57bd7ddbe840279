import TernLang.Lowering
import TernLang.Proofs.Ir.Builder
import TernLang.Proofs.Machine.Steps

/-! Storage for many objects at once. The number of bytes for a written count is known when code is
made and stays at the greatest word if it overflows; for a count that is held in a variable it is
computed when the code runs, modulo a word. -/
namespace TernLang

open Ir (Instruction)
open Lowering
open Success

/-- The code of an expression, at the end of the current block. -/
def Lowering.Codes (ctx : Context) (s : State) (expr : Expr) (code : List Instruction) : Prop :=
  ∃ typed s' next, (lowerExpr ctx expr).run s = .ok (typed, s') ∧ s'.builder = s.builder.appended next code

theorem Ir.Builder.appended_appended (b : Builder) (code code' : List Instruction) :
    (b.appended next code).appended next' code' = b.appended next' (code ++ code') := by
  simp [appended, modifyBlock, List.modify_modify_eq, Function.comp_def]

namespace Machine

/-- So many steps in a row. -/
def steps (image : Image) (maxDepth : Nat) : Nat → State → Except Halt (Control × Store)
  | 0, state => .ok (.running state.frame state.callers, state.store)
  | n + 1, state => do
    match ← next image maxDepth state with
    | (.running frame callers, store) => steps image maxDepth n ⟨frame, callers, store⟩
    | ended => return ended

/-- What becomes of a request for so many bytes: a region that was not there before, or a fault. -/
def Grants (store : Store) (bytes : Nat) (outcome : Except Halt (Control × Store)) : Prop :=
  if bytes ≤ offsetLimit then ∃ control after, outcome = .ok (control, after) ∧
    after.memory = ⟨store.memory.count + 1, store.memory.regions.insert store.memory.count { size := bytes }⟩
  else outcome = .error (.fault (.tooLarge bytes))

/-- A call of the system's allocator, by the declaration that the module has of it. -/
def allocatorCall (mod : Ir.Module) (reg : Nat) (bytes : Ir.Value) : Instruction :=
  let ty := ((mod.function? "malloc").map (·.type)).getD mallocType
  .call (if ty.result = .void then none else some reg) (.function "malloc") ty [bytes]

theorem allocate_codes (s : Lowering.State) (ty : TypeName) (bytes : Ir.Value) : ∃ typed s' next,
    (allocate ty bytes).run s = .ok (typed, s') ∧
      s'.builder = s.builder.appended next [allocatorCall s.module s.builder.nextRegister bytes] :=
        by
  have called (ty : Ir.FunctionType) (b : Ir.Builder) : ∃ next, (Ir.Build.call (.function "malloc") ty [bytes] b).2 =
      b.appended next [.call (if ty.result = .void then none else some b.nextRegister)
        (.function "malloc") ty [bytes]] := by
    unfold Ir.Build.call
    split
    · exact ⟨b.nextRegister, rfl⟩
    · exact ⟨b.nextRegister + 1, rfl⟩
  obtain ⟨next, same⟩ := called (((s.module.function? "malloc").map (·.type)).getD mallocType) s.builder
  exact ⟨_, _, next, rfl, same⟩

/-- Code for a count that is held in a variable. -/
def productCode (s : Lowering.State) (ptr : Ir.Value) (size : Nat) : List Instruction :=
  let reg := s.builder.nextRegister
  [.load reg .i64 ptr, .binary (reg + 1) .mul (.register reg .i64) (.int 64 size.toUInt64),
    allocatorCall s.module (reg + 2) (.register (reg + 1) .i64)]

theorem product_codes {ctx : Context} {s : Lowering.State} {mark mark' : Mark} {ty held : TypeName}
    (sized : (sizeOfType ctx mark.line ty).run s = .ok (size, s))
    (found : s.scope.lookup? name = some ⟨ptr, held⟩)
    (wide : ∀ line, ctx.program.classify (ctx.location line) held = .ok (.integer 64 false)) :
    Codes ctx s (.allocateMany mark ty (.name mark' name)) (productCode s ptr size) := by
  let s₁ := s.built (.load .i64 ptr)
  let s₂ := s₁.built (.binary .mul (.register s.builder.nextRegister .i64) (.int 64 size.toUInt64))
  obtain ⟨typed, s', next, run, built⟩ := allocate_codes s₂ ty (.register (s.builder.nextRegister + 1) .i64)
  have loaded : (lowerExprWith ctx (constantValue ctx) (.name mark' name)).run s =
      .ok (⟨.register s.builder.nextRegister .i64, held⟩, s₁) := by
    have solid : (solidType ctx mark'.line held .voidLoad).run s = .ok (.i64, s) := by
      simp [solidType, Program.irType, wide, TypeClass.irType]
      rfl
    simp [lowerExprWith, nameAddress, found, loadFrom, solid]
    rfl
  have widened : (widenIndex ctx mark.line ⟨.register s.builder.nextRegister .i64, held⟩).run s₁ =
      .ok (.register s.builder.nextRegister .i64, s₁) := by
    simp [widenIndex, classify, wide]
  refine ⟨typed, s', next, ?_, ?_⟩
  · exact (run_bind_of_ok sized).trans <| (run_bind_of_ok loaded).trans <| (run_bind_of_ok widened).trans run
  · rw [built, show s₂.builder = (s.builder.appended _ [_]).appended _ [_] from rfl, Ir.Builder.appended_appended,
      Ir.Builder.appended_appended]
    rfl

variable {image : Image} {maxDepth : Nat} {state : State} {rest : List Instruction}

theorem grants_call (code : state.frame.block.instructions = allocatorCall mod reg bytes :: rest)
    (system : image.definition? state.frame.home "malloc" = none)
    (valued : (eval image state.frame bytes).run state.store = .ok (.int word, state.store)) :
    Grants state.store word.toNat (steps image maxDepth 1 state) := by
  have named : (calleeSymbol image (state.frame.behind rest) (.function "malloc")).run state.store =
      .ok ("malloc", state.store) := rfl
  have args : (evalList image (state.frame.behind rest) [bytes]).run state.store = .ok ([.int word], state.store) :=
    run_bind_of_ok valued
  rw [steps, next_call code, performCall, run_bind_of_ok named, run_bind_of_ok args, Grants]
  simp only [show image.definition? (state.frame.behind rest).home "malloc" = none from system]
  have argument : (Slot.int word).word = .ok word := rfl
  by_cases fits : word.toNat ≤ offsetLimit
  · have allocates := show state.store.memory.allocate word.toNat = .ok _ from if_neg (Nat.not_lt.mpr fits)
    simp [callRoutine, routineArgument, attempt, argument, allocates, fits, steps]
  · have refused := show state.store.memory.allocate word.toNat = .error _ from if_pos (Nat.lt_of_not_le fits)
    simp [callRoutine, routineArgument, attempt, argument, refused, fits, fail]
    rfl

theorem steps_perform (code : state.frame.block.instructions = instr :: rest)
    (plain : ∀ res callee ty args, instr ≠ .call res callee ty args) (performs : (perform image
      (state.frame.behind rest) instr).run state.store = .ok (frame, state.store)) :
    steps image maxDepth (n + 1) state = steps image maxDepth n { state with frame } := by
  rw [steps, next_perform code plain, performs]
  rfl

theorem grants_product {s : Lowering.State} {n : UInt64} (size : Nat)
    (code : state.frame.block.instructions = productCode s ptr size ++ rest)
    (system : image.definition? state.frame.home "malloc" = none)
    (pointed : (evalWord image state.frame ptr).run state.store = .ok (addr, state.store))
    (reads : readShape state.store.memory (.int 64) addr = .ok (.int n)) :
    Grants state.store (n.toNat * size % 2 ^ 64) (steps image maxDepth 3 state) := by
  have held (frame : Frame) (reg : Nat) (word : UInt64) :
      (eval image (frame.assign reg (.int word)) (.register reg .i64)).run state.store =
        .ok (.int word, state.store) := by
    simp [eval, Ir.Value.register, Frame.assign, Sparse.get?_insert]
  have computes : binary .mul .i64 (.int n) (.int size.toUInt64) = .ok (.int (n * size.toUInt64)) := rfl
  have product : (n * size.toUInt64).toNat = n.toNat * size % 2 ^ 64 := by
    rw [UInt64.toNat_mul, Nat.toUInt64, UInt64.toNat_ofNat', Nat.mul_mod_mod]
  rw [steps_perform code (by simp) (perform_load pointed reads),
    steps_perform rfl (by simp) (perform_binary (held _ _ n) rfl computes), ← product]
  exact grants_call rfl system (held ..)

/-- Storage for `n` objects. With a written count, a product that is no word is refused like any
other that is too large; with a count in a variable the product is taken modulo a word. Both are
granted the true product if it is a word. -/
theorem allocations_granted {ctx : Context} {s : Lowering.State} {ty held : TypeName} {size : Nat} {ptr : Ir.Value}
    {n addr : UInt64} (mark mark' : Mark) (maxDepth : Nat)
    (sized : (sizeOfType ctx mark.line ty).run s = .ok (size, s)) (found : s.scope.lookup? name = some ⟨ptr, held⟩)
    (wide : ∀ line, ctx.program.classify (ctx.location line) held = .ok (.integer 64 false))
    (system : image.definition? state.frame.home "malloc" = none)
    (pointed : (evalWord image state.frame ptr).run state.store = .ok (addr, state.store))
    (reads : readShape state.store.memory (.int 64) addr = .ok (.int n)) :
    ∃ fixed dynamic, Codes ctx s (.allocate mark ty (some n.toNat)) fixed ∧
      Codes ctx s (.allocateMany mark ty (.name mark' name)) dynamic ∧ ∀ rest,
        let outcome code := steps image maxDepth code.length { state with frame := state.frame.behind (code ++ rest) }
        Grants state.store (min (n.toNat * size) (2 ^ 64 - 1)) (outcome fixed) ∧
        Grants state.store (n.toNat * size % 2 ^ 64) (outcome dynamic) ∧
        (n.toNat * size < 2 ^ 64 →
          Grants state.store (n.toNat * size) (outcome fixed) ∧
          Grants state.store (n.toNat * size) (outcome dynamic)) := by
  let bytes := fixedBytes size (some n.toNat)
  have same : bytes.toNat = min (n.toNat * size) (2 ^ 64 - 1) := by
    have less : min (size * n.toNat) (twoPow 64 - 1) < 2 ^ 64 := Nat.lt_of_le_of_lt (Nat.min_le_right ..) (by decide)
    rw [Nat.mul_comm]
    exact (UInt64.toNat_ofNat' ..).trans (Nat.mod_eq_of_lt less)
  obtain ⟨typed, s', next, run, built⟩ := allocate_codes s ty (.int 64 bytes)
  refine ⟨[_], _, ⟨typed, s', next, (run_bind_of_ok sized).trans run, built⟩,
    product_codes sized found wide, fun rest => ?_⟩
  intro outcome
  have fixed : Grants state.store (min (n.toNat * size) (2 ^ 64 - 1))
      (outcome [allocatorCall s.module s.builder.nextRegister (.int 64 bytes)]) :=
    same ▸ grants_call rfl system rfl
  have dynamic : Grants state.store (n.toNat * size % 2 ^ 64) (outcome (productCode s ptr size)) :=
    grants_product size rfl system pointed reads
  refine ⟨fixed, dynamic, fun less => ⟨?_, ?_⟩⟩
  · exact Nat.min_eq_left (Nat.le_sub_one_of_lt less) ▸ fixed
  · exact Nat.mod_eq_of_lt less ▸ dynamic

namespace Counting

/-! A function with a count of 2 ^ 61 in its only variable. -/

def context : Context where
  program := { file := ⟨"m"⟩ }
  function := ⟨"f", [], .named "void", [], true, false, false, false, false, 0, 1, ⟨"m"⟩⟩

def lowering : Lowering.State where
  module := { name := "m" }
  builder := .start "f" { params := [], result := .void }
  scope := { locals := Table.empty.insert "n" ⟨.register 0 .pointer, .named "ulong"⟩ }

def running : State where
  frame :=
    { home := ⟨lowering.module, .empty⟩, function := lowering.builder.function,
      block := { label := "body" }, args := [],
      registers := Sparse.empty.insert 0 (.pointer (regionAddress 0)) }
  store := { memory := ⟨1, Sparse.empty.insert 0 ⟨8, Sparse.empty.insert 7 32⟩⟩ }

/-- Room for 2 ^ 61 words is refused if the count is written, and is no room at all if it is held in
the variable. -/
theorem outcomes_differ : ∃ fixed dynamic,
    Codes context lowering (.allocate ⟨1, 1⟩ (.named "long") (some (2 ^ 61))) fixed ∧
    Codes context lowering (.allocateMany ⟨1, 1⟩ (.named "long") (.name ⟨0, 1⟩ "n")) dynamic ∧
    ∀ rest,
      let outcome code :=
        steps ⟨[]⟩ 512 code.length { running with frame := running.frame.behind (code ++ rest) }
      Grants running.store (2 ^ 64 - 1) (outcome fixed) ∧
        Grants running.store 0 (outcome dynamic) := by
  have sized : (sizeOfType context 1 (.named "long")).run lowering = .ok (8, lowering) := rfl
  have found : lowering.scope.lookup? "n" = some ⟨.register 0 .pointer, .named "ulong"⟩ := rfl
  have wide line : context.program.classify (context.location line) (.named "ulong") = .ok (.integer 64 false) := rfl
  have system : (⟨[]⟩ : Image).definition? running.frame.home "malloc" = none := rfl
  have pointed : (evalWord ⟨[]⟩ running.frame (.register 0 .pointer)).run running.store =
      .ok (regionAddress 0, running.store) := rfl
  have reads : readShape running.store.memory (.int 64) (regionAddress 0) = .ok (.int 0x2000000000000000) := by cbv
  obtain ⟨fixed, dynamic, first, second, outcomes⟩ :=
    allocations_granted ⟨1, 1⟩ ⟨0, 1⟩ 512 sized found wide system pointed reads
  exact ⟨fixed, dynamic, first, second, fun rest => ⟨(outcomes rest).1, (outcomes rest).2.1⟩⟩

end Counting
end Machine
end TernLang
