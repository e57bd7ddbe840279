import TernLang.Proofs.Ir.Checking
import TernLang.Proofs.Lowering.FunctionInversion
import TernLang.Proofs.Syntax

/-! What kind of instructions lowering adds. Statements add slots, stores and jumps of their own;
the rest is code for their expressions. -/
namespace TernLang.Lowering

open Ir (Builder Instruction)
open Success

/-- All instructions of the function so far are such. -/
def AllCode (kind : Instruction → Prop) (s : State) : Prop :=
  ∀ instr ∈ s.builder.function.code, kind instr

/-- All instructions that the computation adds are such. -/
def AddsOnly {α : Type} (kind : Instruction → Prop) (x : Lower α) : Prop :=
  ∀ ⦃s a s'⦄, x.run s = .ok (a, s') → AllCode kind s → AllCode kind s'

/-- A kind of statements whose parts are of it too, and which add such instructions unless through
their parts. -/
structure Adding (kind : Instruction → Prop) (ctx : Context) (fine : Stmt → Prop) : Prop where
  inner : ∀ ⦃stmt⦄, fine stmt → ∀ block ∈ stmt.blocks, ∀ inner ∈ block, fine inner
  simple : ∀ ⦃stmt⦄, fine stmt → stmt.blocks = [] → AddsOnly kind (lowerStmt ctx stmt)
  condition : ∀ ⦃stmt⦄, fine stmt → ∀ condition ∈ stmt.roots.head?, stmt.blocks ≠ [] →
    AddsOnly kind (lowerCondition ctx condition)

variable {kind : Instruction → Prop} {s : State}

namespace AllCode

theorem appended (all : AllCode kind s) (next : Nat) (new : ∀ instr ∈ code, kind instr) :
    AllCode kind { s with builder := s.builder.appended next code } :=
  fun instr mem => (Builder.mem_code_appended.mp mem).elim (all instr) fun added => new instr added.2

theorem alloca (all : AllCode kind s) (slot : kind (.alloca s.builder.nextRegister ty)) :
    AllCode kind (s.built (.alloca ty)) :=
  appended (s := { s with builder := s.builder.positioned 0 }) all (s.builder.nextRegister + 1) (by simpa using slot)

theorem store (all : AllCode kind s) (stored : kind (.store val ptr)) :
    AllCode kind (s.built (.store val ptr)) :=
  all.appended _ (by simpa using stored)

theorem withSlot (all : AllCode kind s) (slot : ∀ reg, kind (.alloca reg ty))
    (stores : ∀ val ptr, kind (.store val ptr)) (val : Ir.Value) :
    AllCode kind (s.withSlot ty val) :=
  (all.alloca (slot _)).store (stores _ _)

end AllCode

namespace AddsOnly
variable {α β : Type}

theorem bind {x : Lower α} {next : α → Lower β} (first : AddsOnly kind x)
    (later : ∀ a, AddsOnly kind (next a)) :
    AddsOnly kind (x >>= next) := by
  intro s b s' run all
  obtain ⟨a, s₁, runs, rest⟩ := run_bind_ok.mp run
  exact later a rest (first runs all)

theorem of_same {x : Lower α} (same : ∀ ⦃s a s'⦄, x.run s = .ok (a, s') → s'.builder = s.builder) :
    AddsOnly kind x := by
  intro s a s' run all
  rwa [AllCode, same run]

theorem pure (a : α) : AddsOnly kind (pure a) := of_same fun s b s' run => by rw [(run_pure_ok.mp run).2]

theorem lift (x : Except Error α) : AddsOnly kind (liftM x : Lower α) := of_same fun s b s' run => by
  rw [(run_lift_ok.mp run).2]

theorem modifies {change : State → State} (same : ∀ s, (change s).builder = s.builder) :
    AddsOnly kind (modify change : Lower Unit) := of_same fun s b s' run => by rw [run_modify_ok.mp run, same]

theorem builds {action : Ir.Build α} (keeps : ∀ s, AllCode kind s → AllCode kind (s.built action)) :
    AddsOnly kind (build action) := by
  intro s a s' run all
  rw [(build_ok.mp run).2]
  exact keeps s all

theorem emit {ty : IrType} {make : Nat → Instruction} (new : ∀ res, kind (make res)) :
    AddsOnly kind (build (.emit ty make)) := builds fun s all => all.appended _ (by simpa using new _)

theorem terminate (term : Ir.Terminator) : AddsOnly kind (build (.terminate term)) := by
  refine builds fun s all => ?_
  change ∀ instr ∈ (if s.builder.isTerminated then _ else _ : Builder).function.code, _
  split
  · exact all
  · exact fun instr mem => all instr ((s.builder.code_terminated term).2 mem)

theorem branch (target : Nat) : AddsOnly kind (build (.branch target)) := terminate _

theorem appendBlock (hint : String) : AddsOnly kind (build (.appendBlock hint)) := by
  refine builds fun s all => ?_
  change ∀ instr ∈ Ir.Function.code { s.builder.function with blocks :=
    s.builder.function.blocks ++ [{ label := _ }] }, _
  simpa [AllCode, Ir.Function.code] using all

theorem position (idx : Nat) : AddsOnly kind (build (.position idx)) := builds fun _ all => all

/-! Blocks, and statements that hold blocks. -/

theorem branchOn (polarity : Polarity) (cond : Ir.Value) (body past : Nat) :
    AddsOnly kind (branchOn polarity cond body past) := by
  cases polarity <;> exact terminate _

theorem arm {lowerBody : Lower Bool} (block next : Nat) (body : AddsOnly kind lowerBody) :
    AddsOnly kind (lowerArm block next lowerBody) := by
  refine bind (position _) fun _ => bind (modifies fun _ => rfl) fun _ => bind body fun left =>
    bind (modifies fun _ => rfl) fun _ => ?_
  cases left with
  | true => exact pure _
  | false => exact branch next

variable {ctx : Context}

theorem block {block : List Stmt} (each : ∀ stmt ∈ block, AddsOnly kind (lowerStmt ctx stmt)) :
    AddsOnly kind (lowerBlock ctx block) := by
  induction block with
  | nil => exact pure _
  | cons stmt block ih =>
    obtain ⟨first, others⟩ := List.forall_mem_cons.mp each
    refine bind first fun _ => ?_
    split
    · exact pure _
    · exact ih others

theorem stmt {fine : Stmt → Prop} (adding : Adding kind ctx fine) (stmt : Stmt)
    (given : fine stmt) :
    AddsOnly kind (lowerStmt ctx stmt) := by
  induction stmt using Stmt.induct with | step stmt ih =>
  have inner (body : List Stmt) (part : body ∈ stmt.blocks) : AddsOnly kind (lowerBlock ctx body) :=
    block fun inner mem => ih body part inner mem (adding.inner given body part inner mem)
  cases stmt with
  | branch line polarity cond body =>
    exact bind (adding.condition given cond rfl nofun) fun _ => bind (appendBlock _) fun _ =>
      bind (appendBlock _) fun _ =>
      bind (branchOn ..) fun _ => bind (arm _ _ (inner body (.head _))) fun _ => position _
  | branchElse line polarity cond body otherwise =>
    exact bind (adding.condition given cond rfl nofun) fun _ => bind (appendBlock _) fun _ =>
      bind (appendBlock _) fun _ =>
      bind (appendBlock _) fun _ => bind (branchOn ..) fun _ => bind (arm _ _ (inner body (.head _))) fun _ =>
      bind (arm _ _ (inner otherwise (.tail _ (.head _)))) fun _ => position _
  | loop line polarity cond body =>
    exact bind (appendBlock _) fun _ => bind (appendBlock _) fun _ => bind (appendBlock _) fun _ =>
      bind (branch _) fun _ =>
      bind (position _) fun _ => bind (adding.condition given cond rfl nofun) fun _ => bind (branchOn ..) fun _ =>
      bind (arm _ _ (inner body (.head _))) fun _ => position _
  | _ => exact adding.simple given rfl

/-- A function adds slots for its parameters and its result, and its body. -/
theorem function (stores : ∀ val ptr, kind (.store val ptr))
    (loads : ∀ reg ty ptr, kind (.load reg ty ptr))
    (params : ∀ param ∈ ctx.function.params, ∀ lowered, ctx.program.irType
      (ctx.location ctx.function.line) param.type = .ok lowered → ∀ reg, kind (.alloca reg lowered))
    (res : ∀ lowered, ctx.program.irType (ctx.location ctx.function.line) ctx.function.result =
      .ok lowered → lowered ≠ .void → ∀ reg, kind (.alloca reg lowered))
    (body : ∀ exit, AddsOnly kind (lowerBlock { ctx with exit } ctx.function.body)) :
    AddsOnly kind (lowerFunction ctx) := by
  have stored (fields : List Field) (idx : Nat) (within : fields ⊆ ctx.function.params) :
      AddsOnly kind (storeParams ctx idx fields) := by
    induction fields generalizing idx with
    | nil => exact pure _
    | cons field fields ih =>
      obtain ⟨first, others⟩ := List.cons_subset.mp within
      intro s u s' run all
      obtain ⟨lowered, found, -, run⟩ := storeParams_cons_ok run
      exact ih (idx + 1) others run (all.withSlot (params field first lowered found) stores _)
  have prepared : AddsOnly kind (prepareExit ctx) := by
    intro s exit s' run all
    obtain ⟨lowered, found, ⟨-, -, rfl⟩ | ⟨solid, -, rfl⟩⟩ := prepareExit_ok run
    · exact all
    · exact all.withSlot (res lowered found solid) stores _
  have quits (exit : Option ExitSlot) : AddsOnly kind (lowerQuit exit) := by
    cases exit with
    | none => exact bind (position _) fun _ => terminate _
    | some slot => exact bind (position _) fun _ => bind (emit fun _ => loads _ _ _) fun _ => terminate _
  have ends (exit : Option ExitSlot) :
      AddsOnly kind (build (.position entryBlock) >>= fun _ =>
        build (.branch bodyBlock) >>= fun _ => lowerQuit exit) :=
    bind (position _) fun _ => bind (branch _) fun _ => quits exit
  refine bind (appendBlock _) fun _ => bind (appendBlock _) fun _ => bind (position _) fun _ =>
    bind (stored _ 0 (List.Subset.refl _)) fun _ => bind prepared fun exit => bind (body exit) fun left => ?_
  cases left with
  | true => exact ends exit
  | false => exact bind (branch _) fun _ => ends exit

end AddsOnly
end TernLang.Lowering
