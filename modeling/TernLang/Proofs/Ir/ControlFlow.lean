import Mathlib.Data.List.Nodup
import TernLang.Ir

/-! Control flow and definitions of a function. Slots are the registers of the first block; any
other register is used only in the block that defines it, behind its definition. -/
namespace TernLang.Ir

/-- The value needs none but these registers and the arguments below a count. -/
def Value.Known (params : Nat) (registers : List Nat) (val : Value) : Prop :=
  match val.operand with
  | .register idx => idx ∈ registers
  | .argument idx => idx < params
  | _ => True

theorem Value.Known.mono {val : Value} (usable : val.Known params known) (sub : known ⊆ known') :
    val.Known params known' := by
  unfold Value.Known at *
  split at usable
  · exact sub usable
  · exact usable
  · trivial

namespace Instruction

def operands : Instruction → List Value
  | alloca .. => []
  | load _ _ ptr => [ptr]
  | store val ptr => [val, ptr]
  | elementPtr _ _ ptr indices => ptr :: indices
  | binary _ _ left right | compare _ _ left right => [left, right]
  | cast _ _ val _ => [val]
  | call _ callee _ args => callee :: args
  | extractValue _ _ aggregate _ => [aggregate]
  | insertValue _ aggregate val _ => [aggregate, val]

def isAlloca : Instruction → Bool
  | alloca .. => true
  | _ => false

end Instruction

namespace Terminator

def operands : Terminator → List Value
  | branch _ | ret none => []
  | condBranch cond _ _ => [cond]
  | ret (some val) => [val]

def targets : Terminator → List Nat
  | branch tgt => [tgt]
  | condBranch _ ifTrue ifFalse => [ifTrue, ifFalse]
  | ret _ => []

def isReturn : Terminator → Bool
  | ret _ => true
  | _ => false

end Terminator

def defined (code : List Instruction) : List Nat := code.filterMap Instruction.result?

@[simp] theorem defined_nil : defined [] = [] := rfl

@[simp] theorem defined_append (first second : List Instruction) :
    defined (first ++ second) = defined first ++ defined second := List.filterMap_append ..

/-- Operands are slots, arguments, constants, or registers that the block has defined before. -/
structure Block.Closed (params : Nat) (slots : List Nat) (block : Block) : Prop where
  instructions : ∀ (k : Nat) (instr : Instruction), block.instructions[k]? = some instr →
    ∀ val ∈ instr.operands, val.Known params (slots ++ defined (block.instructions.take k))
  terminator : ∀ terminator, block.terminator = some terminator →
    ∀ val ∈ terminator.operands, val.Known params (slots ++ defined block.instructions)

namespace Function

variable (fn : Function)

def slots : List Nat :=
  match fn.block? 0 with
  | some block => defined block.instructions
  | none => []

def registers : List Nat := fn.blocks.flatMap (defined ·.instructions)

theorem slots_subset_registers : fn.slots ⊆ fn.registers := by
  unfold slots block? registers
  intro reg mem
  split at mem
  · next block found => exact List.mem_flatMap.mpr ⟨block, List.mem_of_getElem? found, mem⟩
  · contradiction

def labels : List String := fn.blocks.map (·.label)

/-- A graph of blocks in which every path ends in one return. Stack slots come first; all other
registers are local to their block. -/
structure SsaGraph (fn : Function) : Prop where
  front : fn.labels.take 3 = ["entry", "body", "quit"]
  labels : fn.labels.Nodup
  terminated : ∀ i block, fn.block? i = some block → block.terminator.isSome
  targets : ∀ i block, fn.block? i = some block → ∀ term, block.terminator = some term →
    ∀ tgt ∈ term.targets, tgt < fn.blocks.length
  returns : ∀ i block, fn.block? i = some block → ∀ term, block.terminator = some term →
    (term.isReturn ↔ i = 2)
  allocas : ∀ i block, fn.block? i = some block → ∀ instr ∈ block.instructions,
    (instr.isAlloca ↔ i = 0)
  registers : fn.registers.Nodup
  closed : ∀ i block, fn.block? i = some block →
    block.Closed fn.type.params.length fn.slots

theorem SsaGraph.exists_entry {fn : Function} (graph : fn.SsaGraph) :
    ∃ block, fn.block? 0 = some block := by
  have front := graph.front
  unfold block?
  cases blocks : fn.blocks with
  | nil =>
    rw [Function.labels, blocks] at front
    contradiction
  | cons block rest => exact ⟨block, rfl⟩

theorem SsaGraph.isDeclaration {fn : Function} (graph : fn.SsaGraph) :
    fn.isDeclaration = false := by
  obtain ⟨block, found⟩ := graph.exists_entry
  rw [Function.isDeclaration, List.isEmpty_eq_false_iff_exists_mem]
  exact ⟨block, List.mem_of_getElem? found⟩

end Function
end TernLang.Ir
