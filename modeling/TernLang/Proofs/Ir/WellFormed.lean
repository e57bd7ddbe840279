import TernLang.Proofs.Ir.Shape

/-! Modules that can be run on their own: every path through a function defines registers before
it uses them, every call names its target, and every name in a function is defined. -/
namespace TernLang.Ir

open List

/-- A path from the first block comes to a block; the registers are those defined on the way. -/
inductive Function.Arrives (fn : Function) : Nat → List Nat → Prop where
  | entry : Arrives fn 0 []
  | branch {idx tgt : Nat} {known : List Nat} {block : Block} {term : Terminator} :
    Arrives fn idx known → fn.block? idx = some block → block.terminator = some term →
    tgt ∈ term.targets → Arrives fn tgt (known ++ defined block.instructions)

structure Function.WellFormed (fn : Function) : Prop where
  terminated : ∀ i block, fn.block? i = some block → block.terminator.isSome
  targets : ∀ i block, fn.block? i = some block → ∀ term, block.terminator = some term →
    ∀ tgt ∈ term.targets, tgt < fn.blocks.length
  /-- Every register is defined once … -/
  registers : fn.registers.Nodup
  /-- … and before its uses, whatever the way to them. -/
  closed : ∀ i known block, fn.Arrives i known → fn.block? i = some block →
    block.Closed fn.type.params.length known

/-- Nothing is asked of a function without blocks. -/
theorem Function.WellFormed.declaration {fn : Function} (none : fn.blocks = []) :
    fn.WellFormed := by
  have missing (i : Nat) (block : Block) : fn.block? i ≠ some block := by
    rw [Function.block?, none]
    exact nofun
  refine ⟨fun i block found => ?_, fun i block found => ?_, ?_, fun i _ block _ found => ?_⟩
  · exact absurd found (missing i block)
  · exact absurd found (missing i block)
  · rw [Function.registers, none]
    exact .nil
  · exact absurd found (missing i block)

namespace Module

/-- Constant indices that lead to a part of a type. -/
inductive Leads (mod : Module) : IrType → List Value → Prop where
  | nil (ty : IrType) : Leads mod ty []
  | cons {ty part : IrType} {bits : Nat} {word : UInt64} {values : List Value} :
    0 ≤ Word.signed word bits →
    mod.partType? ty (Word.signed word bits).toNat = some part → Leads mod part values →
    Leads mod ty (⟨.int word, .int bits⟩ :: values)

def isDefined (mod : Module) (sym : String) : Bool :=
  match mod.function? sym with
  | some fn => ! fn.isDeclaration
  | none => false

/-- The symbol is that of a function of the module, or else of a routine that manages memory. -/
inductive Offers (mod : Module) : String → FunctionType → Prop where
  | function {sym : String} {function : Function} : mod.function? sym = some function →
    function.isDeclaration = false → Offers mod sym function.type
  | malloc {ty : FunctionType} : mod.isDefined "malloc" = false → ty.params = [.i64] →
    ty.result = .pointer → Offers mod "malloc" ty
  | free {ty : FunctionType} : mod.isDefined "free" = false → ty.params = [.pointer] →
    ty.result = .void → Offers mod "free" ty

end Module

/-- Calls name their target, and indices behind the first are constants in range. -/
def Instruction.Resolved (mod : Module) : Instruction → Prop
  | elementPtr _ base _ indices => mod.Leads base indices.tail
  | call _ callee ty _ => ∃ sym, callee.operand = .function sym ∧ mod.Offers sym ty
  | _ => True

structure Module.WellFormed (mod : Module) : Prop where
  structs : mod.Stratified
  /-- Arrays are short enough to be taken apart, in structs … -/
  spans : mod.Spans (· ≤ Shape.capacity)
  /-- … and in code. -/
  lengths : ∀ sym fn, mod.function? sym = some fn → ∀ ty ∈ fn.types,
    ty.Lengths (· ≤ Shape.capacity)
  globals : ∀ global ∈ mod.globals.values, mod.isSized global.type ∧ global.initializer.isSome
  params : ∀ sym fn, mod.function? sym = some fn → fn.isDeclaration = false →
    ∀ ty ∈ fn.type.params, mod.isSized ty
  functions : ∀ sym fn, mod.function? sym = some fn → fn.WellFormed
  resolved : ∀ sym fn, mod.function? sym = some fn → ∀ block ∈ fn.blocks,
    ∀ instr ∈ block.instructions, instr.Resolved mod

namespace Module.WellFormed
variable {mod : Module} (wellFormed : mod.WellFormed) {sym : String} {fn : Function}
  (found : mod.function? sym = some fn) {block : Block} (there : block ∈ fn.blocks)
include wellFormed found there

theorem lengths_instruction {instr : Instruction} (mem : instr ∈ block.instructions) :
    ∀ ty ∈ instr.types, ty.Lengths (· ≤ Shape.capacity) := by
  intro ty named
  refine wellFormed.lengths sym fn found ty (mem_append_right _ ?_)
  exact mem_flatMap.mpr ⟨block, there, mem_append_left _ (mem_flatMap.mpr ⟨_, mem, named⟩)⟩

theorem lengths_terminator {term : Terminator} (ends : block.terminator = some term) {val : Value}
    (mem : val ∈ term.operands) : val.type.Lengths (· ≤ Shape.capacity) := by
  refine wellFormed.lengths sym fn found _ (mem_append_right _ ?_)
  refine mem_flatMap.mpr ⟨block, there, mem_append_right _ (mem_flatMap.mpr ⟨term, ?_, ?_⟩)⟩
  · exact ends ▸ mem_singleton_self term
  · exact mem_map_of_mem mem

end Module.WellFormed

end TernLang.Ir
