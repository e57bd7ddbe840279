import TernLang.Proofs.Core.Typing
import TernLang.Proofs.Lowering.AddedCode
import TernLang.Proofs.Lowering.Graph

/-! Slots of a function of the core hold values of the core: expressions add none, and every
statement adds only slots for the variables it declares. What a whole function needs besides are
the slots of its parameters and of its result. -/
namespace TernLang

def Ir.Builder.entry (b : Ir.Builder) : List Ir.Instruction :=
  match b.function.block? 0 with
  | some block => block.instructions
  | none => []

theorem Ir.Builder.entry_withSlot {b : Ir.Builder} (waits : b.Open 0) (ty : IrType) :
    (b.withSlot ty).entry = b.entry ++ [.alloca b.nextRegister ty] := by
  obtain ⟨block, found, -⟩ := waits
  simp [entry, block?_withSlot, found]

namespace Core

open Ir (Block Builder Instruction)
open Lowering
open Success

def IntSlots (code : List Instruction) : Prop :=
  ∀ instr ∈ code, ∃ (reg : Nat) (scalar : Scalar), instr = .alloca reg (.int scalar.bits)

/-- If it is a slot, it holds values of the core. -/
def IntSlot (instr : Instruction) : Prop :=
  ∀ reg ty, instr = .alloca reg ty → ∃ scalar : Scalar, ty = .int scalar.bits

theorem intSlot_of {instr : Instruction} (plain : instr.isAlloca = false) : IntSlot instr := by
  rintro reg ty rfl
  contradiction

theorem intSlots_entry {s : State} (ints : AllCode IntSlot s)
    (graph : s.builder.function.SsaGraph) : IntSlots s.builder.entry := by
  obtain ⟨block, found⟩ := graph.exists_entry
  intro instr mem
  rw [Builder.entry, found] at mem
  have slot : instr.isAlloca := (graph.allocas 0 block found instr mem).mpr rfl
  cases instr with
  | alloca reg ty =>
    obtain ⟨scalar, rfl⟩ := ints _ (Ir.Function.mem_code.mpr ⟨0, block, found, mem⟩) reg ty rfl
    exact ⟨reg, scalar, rfl⟩
  | _ => contradiction

/-- Slots that the computation adds hold values of the core. -/
abbrev AddsInts {α : Type} (x : Lower α) : Prop := AddsOnly IntSlot x

variable {line : Nat} {ctx : Context}

theorem call_ints (callee : Ir.Value) (ty : Ir.FunctionType) (args : List Ir.Value) :
    AddsInts (build (.call callee ty args)) := by
  unfold Ir.Build.call
  split
  · exact .builds fun _ ints => ints.appended _ (by simpa using intSlot_of rfl)
  · exact .emit fun _ => intSlot_of rfl

theorem applyConversion_ints (val : Ir.Value) (tgt : IrType) (conv : Conversion) :
    AddsInts (applyConversion val tgt conv) := by
  cases conv with
  | keep => exact .pure _
  | cast | test =>
    rw [applyConversion]
    exact .emit fun _ => intSlot_of rfl

theorem truth_ints (typed : Typed) : AddsInts (truth ctx line typed) := by
  refine .bind (.lift _) fun cond => ?_
  cases cond with
  | bool => exact .pure _
  | notZero => exact .emit fun _ => intSlot_of rfl

theorem loadFrom_ints (addr : Typed) : AddsInts (loadFrom ctx line addr) := by
  intro s typed s' run
  obtain ⟨lowered, -, -, -, rfl⟩ := loadFrom_ok run
  exact AddsOnly.emit (fun _ => intSlot_of rfl) (build_ok.mpr ⟨rfl, rfl⟩)

theorem nameAddress_ints (name : String) : AddsInts (nameAddress ctx line name) :=
  .of_same fun s addr s' run => by rw [(nameAddress_ok run).1]

theorem promoteList_ints (args : List Typed) : AddsInts (promoteList ctx line args) := by
  induction args with
  | nil => exact .pure _
  | cons arg args ih =>
    refine .bind (fun s val s' run => ?_) fun val => .bind ih fun rest => .pure _
    obtain ⟨_, _, _, -, -, applied⟩ := promote_ok run
    exact applyConversion_ints _ _ _ applied

theorem emitCall_ints (flat : ∀ elem, sig.variadic ≠ .tail elem) (callee : Ir.Value)
    (args : List Typed) :
    AddsInts (emitCall ctx line sig callee args) := by
  refine .bind (.lift _) fun ty => .bind ?_ fun tail => .bind (call_ints _ _ _) fun res => .pure _
  unfold tailValues
  split
  · exact .pure _
  · next elem found => exact absurd found (flat elem)
  · exact promoteList_ints _

theorem callNamed_ints (core : IsCore ctx.program) (name : String) (args : List Typed) :
    AddsInts (callNamed ctx line name args) := by
  intro s typed s' run ints
  rcases callNamed_ok run with ⟨sig, found, called⟩ | ⟨-, ptr, sig, s₁, held, called⟩
  · obtain ⟨⟨fn, known, rfl⟩, -⟩ := findCallable_solid _ core found
    refine emitCall_ints (fun elem => ?_) _ _ called ints
    rw [(ofFunction_core (core.functions fn known)).2]
    simp
  · obtain ⟨addr, loaded, _, _, _, _, variadic, -, loads, -, -, -, rfl⟩ := functionVariable?_some held
    obtain ⟨-, -, called⟩ := callVariable_ok called
    refine emitCall_ints (fun elem => ?_) _ _ called (loadFrom_ints _ loads ints)
    cases variadic <;> simp

theorem areCoreExprs_mem (inCore : areCoreExprs exprs) : ∀ expr ∈ exprs, isCoreExpr expr := by
  induction exprs with
  | nil => simp
  | cons expr exprs ih =>
    rw [areCoreExprs, Bool.and_eq_true] at inCore
    exact List.forall_mem_cons.mpr ⟨inCore.1, ih inCore.2⟩

theorem lowerArgs_ints (each : ∀ arg ∈ args, AddsInts (lowerExpr ctx arg)) :
    AddsInts (lowerArgsWith ctx (constantValue ctx) args) := by
  induction args with
  | nil => exact .pure _
  | cons arg args ih =>
    obtain ⟨first, others⟩ := List.forall_mem_cons.mp each
    exact .bind first fun typed => .bind (ih others) fun rest => .pure _

theorem lowerExpr_ints (core : IsCore ctx.program) (expr : Expr) :
    isCoreExpr expr → AddsInts (lowerExpr ctx expr) := by
  induction expr using Expr.induct with
  | step expr ih =>
  intro inCore
  cases expr with
  | literal mark literal =>
    cases literal with
    | bool | integer => exact .pure _
    | _ => contradiction
  | name mark name => exact .bind (nameAddress_ints name) loadFrom_ints
  | call mark scope name args =>
    cases scope with
    | some scope => contradiction
    | none =>
      have each := areCoreExprs_mem (by simpa [isCoreExpr] using inCore)
      exact .bind (lowerArgs_ints fun arg mem => ih arg (by simp [Expr.children, mem]) (each arg mem))
        (callNamed_ints core name)
  | not mark val =>
    exact .bind (ih val (.head _) inCore) fun typed =>
      .bind (truth_ints typed) fun cond => .bind (.emit fun _ => intSlot_of rfl) fun res => .pure _
  | cast mark tgt val =>
    rw [isCoreExpr, Bool.and_eq_true] at inCore
    refine .bind (ih val (.head _) inCore.2) fun typed => .bind (fun s val s' run => ?_) fun _ => .pure _
    obtain ⟨_, _, _, -, -, -, applied⟩ := convert_ok run
    exact applyConversion_ints _ _ _ applied
  | binary mark op left right =>
    rw [isCoreExpr, Bool.and_eq_true] at inCore
    have first := ih left (.head _) inCore.1
    have second := ih right (.tail _ (.head _)) inCore.2
    unfold lowerExpr lowerExprWith
    split
    · exact .bind first fun _ => .bind (truth_ints _) fun _ => .bind second fun _ => .bind (truth_ints _) fun _ =>
        .bind (.emit fun _ => intSlot_of rfl) fun _ => .pure _
    · refine .bind first fun _ => .bind second fun _ s typed s' run => ?_
      obtain ⟨_, _, -, -, ⟨_, -, -, -, rfl⟩ | ⟨_, -, -, -, rfl⟩⟩ := lowerOperation_ok run
      all_goals exact AddsOnly.emit (fun _ => intSlot_of rfl) (build_ok.mpr ⟨rfl, rfl⟩)
  | addressOf | load | index | member | method | function | sizeOf | allocate | allocateMany | array | constant
  | qualified => contradiction

/-! Statements. -/

theorem areCoreStmts_mem (inCore : areCoreStmts stmts) : ∀ stmt ∈ stmts, isCoreStmt stmt := by
  induction stmts with
  | nil => simp
  | cons stmt stmts ih =>
    rw [areCoreStmts, Bool.and_eq_true] at inCore
    exact List.forall_mem_cons.mpr ⟨inCore.1, ih inCore.2⟩

theorem withSlot_ints {s : State} (ints : AllCode IntSlot s) (scalar : Scalar) (val : Ir.Value) :
    AllCode IntSlot (s.withSlot (.int scalar.bits) val) :=
  ints.withSlot (fun _ _ _ same => ⟨scalar, by cases same; rfl⟩) (fun _ _ => intSlot_of rfl) val

theorem adding_ints (core : IsCore ctx.program) : Adding IntSlot ctx (isCoreStmt ·) where
  inner := by
    intro stmt inCore block part inner mem
    refine areCoreStmts_mem ?_ inner mem
    cases stmt <;> simp_all [Stmt.blocks, isCoreStmt]
    rcases part with rfl | rfl <;> simp_all
  condition := by
    intro stmt inCore cond first holds
    refine .bind (lowerExpr_ints core cond ?_) truth_ints
    cases stmt <;> simp_all [Stmt.blocks, Stmt.roots, isCoreStmt]
  simple := by
    intro stmt inCore plain
    cases stmt with
    | declare line name ty =>
      intro s u s' run ints
      rw [isCoreStmt, Option.isSome_iff_exists] at inCore
      obtain ⟨scalar, found⟩ := inCore
      obtain ⟨lowered, solid, -, -, rfl⟩ := lowerDeclare_ok run
      rw [Scalar.ofType?_eq_some.mp found, irType_scalar core.aliases] at solid
      cases solid
      exact withSlot_ints ints scalar _
    | define line name ty val =>
      intro s u s' run ints
      rw [isCoreStmt, Bool.and_eq_true, Option.isSome_iff_exists] at inCore
      obtain ⟨⟨scalar, found⟩, inCore⟩ := inCore
      obtain ⟨lowered, typed, s₁, _, solid, -, lowers, -, -, rfl⟩ := lowerDefine_ok run
      rw [Scalar.ofType?_eq_some.mp found, irType_scalar core.aliases] at solid
      cases solid
      exact withSlot_ints (lowerExpr_ints core val inCore lowers ints) scalar _
    | leave line val =>
      intro s u s' run ints
      rcases lowerLeave_ok run with ⟨-, -, rfl⟩ | ⟨expr, exit, typed, s₁, _, rfl, -, lowers, -, rfl⟩
      · exact AddsOnly.branch _ (build_ok.mpr ⟨rfl, rfl⟩) ints
      · exact AddsOnly.branch _ (build_ok.mpr ⟨rfl, rfl⟩)
          ((lowerExpr_ints core expr inCore lowers ints).store (intSlot_of rfl))
    | assign line tgt val =>
      cases tgt with
      | name mark name =>
        refine .bind (nameAddress_ints name) fun _ => .bind (lowerExpr_ints core val inCore) fun _ =>
          .bind (.of_same fun s u s' run => ?_) fun _ => .builds fun s ints => ints.store (intSlot_of rfl)
        rw [(expectInto_ok run).1]
      | _ => contradiction
    | call line val =>
      cases val with
      | call mark scope name args =>
        cases scope with
        | none =>
          exact .bind (lowerExpr_ints core _ (by simpa [isCoreStmt, isCoreExpr] using inCore))
            fun _ => .pure _
        | some _ => contradiction
      | _ => contradiction
    | _ => contradiction

/-- All slots of a function of the core hold values of the core. -/
theorem lowerFunction_ints (core : IsCore ctx.program) (fn : CoreFunction ctx.function) :
    AddsInts (lowerFunction ctx) := by
  have slots {ty : TypeName} {scalar : Scalar} (same : ty = scalar.type) (lowered : IrType)
      (found : ctx.program.irType (ctx.location ctx.function.line) ty = .ok lowered) (reg : Nat) :
      IntSlot (.alloca reg lowered) := by
    rw [same, irType_scalar core.aliases] at found
    cases found
    exact fun _ _ same => ⟨scalar, by cases same; rfl⟩
  refine .function (fun _ _ => intSlot_of rfl) (fun _ _ _ => intSlot_of rfl) (fun param mem => ?_)
    (fun lowered found solid => ?_) fun exit => ?_
  · obtain ⟨scalar, same⟩ := fn.params param mem
    exact slots same
  · rcases fn.result with void | ⟨scalar, same⟩
    · rw [void, irType_void core.aliases] at found
      exact absurd (Except.ok.inj found).symm solid
    · exact slots same lowered found
  · have inCore : IsCore ({ ctx with exit } : Context).program := core
    exact .block fun stmt mem => .stmt (adding_ints inCore) stmt (areCoreStmts_mem fn.body stmt mem)

end Core
end TernLang
