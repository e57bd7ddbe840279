import TernLang.Proofs.Lowering.Flow
import TernLang.Proofs.Lowering.FunctionInversion

/-! Every function that is given a body is a graph of finished blocks in single-assignment form,
and no terminator is lost while it is built. -/
namespace TernLang.Lowering

open List
open Ir (Builder Terminator)
open Success

variable {params idx : Nat} {ctx : Context} {s s' : State} {sym : String} {u : Unit}
  {exit : Option ExitSlot} {b : Builder} {ty : Ir.FunctionType}

theorem block?_laidOut (found : (laidOut sym ty).function.block? i = some block) :
    i < 3 ∧ block.instructions = [] ∧ block.terminator = none := by
  have small : i < 3 := (List.getElem?_eq_some_iff.mp found).1
  obtain rfl | rfl | rfl : i = 0 ∨ i = 1 ∨ i = 2 := by omega
  all_goals
    cases found
    exact ⟨by decide, rfl, rfl⟩

theorem open_laidOut : (laidOut sym ty).Open i ↔ i < 3 := by
  constructor
  · rintro ⟨block, found, -⟩
    exact (block?_laidOut found).1
  · intro small
    match i, small with
    | 0, _ | 1, _ | 2, _ => exact ⟨_, rfl, rfl⟩

theorem sound_laidOut (sym : String) (ty : Ir.FunctionType) : (laidOut sym ty).Sound params where
  front := rfl
  labels := show ["entry", "body", "quit"].Nodup by decide
  numbered _ mem := .inl mem
  targets i block found term ends := by
    rw [(block?_laidOut found).2.2] at ends
    contradiction
  returns i block found term ends := by
    rw [(block?_laidOut found).2.2] at ends
    contradiction
  allocas i block found instr mem := by
    rw [(block?_laidOut found).2.1] at mem
    contradiction
  registers := by simp [laidOut, Ir.Function.registers]
  fresh := by simp [laidOut, Ir.Function.registers]
  closed i block found := by
    obtain ⟨-, code, waits⟩ := block?_laidOut found
    exact ⟨by simp [code], by simp [waits]⟩
  refused := rfl

theorem storeParam_runs (ready : Ready params s) (small : idx < params) (lowered : IrType)
    (field : Field) :
    Runs params false s ((s.withSlot lowered ⟨.argument idx, lowered⟩).withVariable field.name
      ⟨.register s.builder.nextRegister .pointer, field.type⟩) := by
  obtain ⟨emits, slot⟩ := withSlot_emits ready lowered (show Usable params s ⟨.argument idx, lowered⟩ from small)
  exact emits.runs.trans (withVariable_runs emits.ready field.name _ slot)

theorem storeParams_runs (ready : Ready params s) (enough : idx + fields.length ≤ params)
    (run : (storeParams ctx idx fields).run s = .ok (u, s')) : Runs params false s s' := by
  induction fields generalizing idx s with
  | nil =>
    obtain ⟨-, rfl⟩ := run_pure_ok.mp run
    exact (Emits.refl ready).runs
  | cons field fields ih =>
    rw [length_cons] at enough
    obtain ⟨lowered, -, -, run⟩ := storeParams_cons_ok run
    have first := storeParam_runs ready (show idx < params by omega) lowered field
    exact first.trans (ih first.ready (by omega) run)

theorem prepareExit_runs (ready : Ready params s) (run : (prepareExit ctx).run s = .ok (exit, s')) :
    Runs params false s s' ∧ ExitIn { ctx with exit } s' := by
  obtain ⟨lowered, -, ⟨-, rfl, rfl⟩ | ⟨-, rfl, rfl⟩⟩ := prepareExit_ok run
  · exact ⟨(Emits.refl ready).runs, by simp [ExitIn]⟩
  · obtain ⟨emits, slot⟩ := withSlot_emits ready lowered (show Usable params s (.zero lowered) by trivial)
    refine ⟨emits.runs, fun exit found => ?_⟩
    cases found
    exact slot

def State.leaving (s : State) : Builder :=
  ((s.builder.positioned entryBlock).terminated (.branch bodyBlock)).positioned quitBlock

theorem State.slots_leaving (s : State) : s.leaving.function.slots = s.builder.function.slots :=
  Builder.slots_terminated (s.builder.positioned entryBlock) _

def returning (b : Builder) : Option ExitSlot → Builder
  | some slot => (b.appended (b.nextRegister + 1) [.load b.nextRegister slot.type slot.pointer]).terminated
      (.ret (some (.register b.nextRegister slot.type)))
  | none => b.terminated (.ret none)

structure Finished (params : Nat) (s : State) : Prop where
  held : Held params s
  waiting : ∀ i, s.builder.Open i ↔ i = entryBlock ∨ i = quitBlock

/-- Only the current block waits, and it is the one that returns. -/
structure Leaving (params : Nat) (b : Builder) : Prop where
  sound : b.Sound params
  current : b.current = quitBlock
  waiting : ∀ i, b.Open i ↔ i = quitBlock

theorem Leaving.here (leaving : Leaving params b) : b.Open b.current :=
  (leaving.waiting _).mpr leaving.current

namespace Finished

variable (finished : Finished params s)

include finished

theorem open_entry :
    (s.builder.positioned entryBlock).Open (s.builder.positioned entryBlock).current :=
  finished.held.entry

theorem grows_leaving : s.builder.Grows s.leaving :=
  (grows_positioned ..).trans ((Builder.grows_terminated finished.open_entry).trans (grows_positioned ..))

theorem leaving : Leaving params s.leaving where
  sound := by
    have bound : bodyBlock < s.builder.function.blocks.length :=
      Nat.lt_of_lt_of_le (by decide) finished.held.sound.three_le
    exact ((finished.held.sound.positioned entryBlock).terminated finished.open_entry (by simp [Terminator.operands])
      (by simp only [Terminator.targets, mem_singleton, forall_eq]; exact bound)
      (by simp [Terminator.isReturn])).positioned quitBlock
  current := rfl
  waiting i := by
    change ((s.builder.positioned entryBlock).terminated (.branch bodyBlock)).Open i ↔ _
    rw [Builder.open_terminated]
    change s.builder.Open i ∧ i ≠ entryBlock ↔ _
    rw [finished.waiting]
    simp only [entryBlock, quitBlock]
    omega

theorem builder_returned (exit : Option ExitSlot) :
    (((s.built (.position entryBlock)).built (.branch bodyBlock)).returned exit).builder =
      returning s.leaving exit := by
  have left : (((s.built (.position entryBlock)).built (.branch bodyBlock)).built (.position quitBlock)).builder =
      s.leaving := congrArg (·.positioned quitBlock) (Builder.run_terminate finished.open_entry _)
  have here := finished.leaving.here
  cases exit with
  | none =>
    rw [← left] at here ⊢
    exact Builder.run_terminate here _
  | some slot =>
    rw [← left] at here ⊢
    exact Builder.run_terminate ((Builder.open_appended ..).mpr here) _

end Finished

theorem ret_ssaGraph (leaving : Leaving params b) (count : params = b.function.type.params.length)
    (usable : ∀ v ∈ (Terminator.ret val).operands, b.Usable params v) :
    (b.terminated (.ret val)).function.SsaGraph ∧ (b.terminated (.ret val)).refused = [] ∧
      b.Grows (b.terminated (.ret val)) := by
  have sound := leaving.sound.terminated leaving.here usable (by simp [Terminator.targets]) fun _ => leaving.current
  refine ⟨Builder.Sound.ssaGraph (count ▸ sound) ?_ ?_, sound.refused, Builder.grows_terminated leaving.here⟩
  · intro i
    rw [Builder.open_terminated, leaving.waiting, leaving.current]
    simp
  · intro block found
    simp only [Builder.block?_terminated, Option.map_eq_some_iff] at found
    obtain ⟨old, -, rfl⟩ := found
    exact ⟨val, by rw [leaving.current]; rfl⟩

theorem returning_ssaGraph (leaving : Leaving params b)
    (count : params = b.function.type.params.length) (exit : Option ExitSlot)
    (kept : ∀ slot, exit = some slot → IsSlot b.function.slots slot.pointer) :
    (returning b exit).function.SsaGraph ∧ (returning b exit).refused = [] ∧
      b.Grows (returning b exit) := by
  cases exit with
  | none => exact ret_ssaGraph leaving count (by simp [Terminator.operands])
  | some slot =>
    obtain ⟨reg, mem, ptr⟩ := kept slot rfl
    have loaded : Leaving params
        (b.appended (b.nextRegister + 1) [.load b.nextRegister slot.type slot.pointer]) := by
      refine ⟨leaving.sound.push leaving.here ?_ rfl ?_ ?_ (Nat.le_succ _), leaving.current, fun i => ?_⟩
      · rw [leaving.current]
        decide
      · simp only [Ir.Instruction.operands, mem_singleton, forall_eq, ptr]
        exact mem_append_left _ mem
      · rintro _ ⟨⟩
        exact ⟨rfl, Nat.lt_succ_self _⟩
      · exact (Builder.open_appended ..).trans (leaving.waiting i)
    have usable : Builder.Usable params
        (b.appended (b.nextRegister + 1) [.load b.nextRegister slot.type slot.pointer])
        (.register b.nextRegister slot.type) := Builder.usable_appended leaving.here slot.type rfl
    obtain ⟨graph, refused, more⟩ := ret_ssaGraph loaded count
      (show ∀ v ∈ (Terminator.ret (some (.register b.nextRegister slot.type))).operands, _ by
        simpa [Terminator.operands] using usable)
    exact ⟨graph, refused, (Builder.grows_appended leaving.here).trans more⟩

/-- A function as it is built: its parameters, the slot of its result, its body, and the jump
behind the body. -/
structure Stages (params : Nat) (ctx : Context) (s s₁ s₂ s₃ s₄ : State) (exit : Option ExitSlot)
    (left : Bool) :
    Prop where
  ready : Ready params s
  stores : (storeParams ctx 0 ctx.function.params).run s = .ok ((), s₁)
  stored : Runs params false s s₁
  prepares : (prepareExit ctx).run s₁ = .ok (exit, s₂)
  prepared : Runs params false s₁ s₂
  kept : ExitIn { ctx with exit } s₂
  lowers : (lowerBlock { ctx with exit } ctx.function.body).run s₂ = .ok (left, s₃)
  lowered : Runs params left s₂ s₃
  ends : s₄ = if left then s₃ else s₃.built (.branch quitBlock)
  ended : Runs params true s₂ s₄
  finished : Finished params s₄

theorem Stages.whole (stages : Stages params ctx s s₁ s₂ s₃ s₄ exit left) : Runs params true s s₄ :=
  (stages.stored.trans stages.prepared).trans stages.ended

theorem Stages.returning (stages : Stages params ctx s s₁ s₂ s₃ s₄ exit left)
    (count : params = s.builder.function.type.params.length) :
    (returning s₄.leaving exit).function.SsaGraph ∧ (returning s₄.leaving exit).refused = [] ∧
      s₄.leaving.Grows (returning s₄.leaving exit) := by
  refine returning_ssaGraph stages.finished.leaving ?_ exit
    (s₄.slots_leaving.symm ▸ stages.kept.mono stages.ended.grows)
  rw [stages.finished.grows_leaving.type, stages.whole.grows.type]
  exact count

section
variable (start : s.builder = .start sym ty)
include start

theorem lowerFunction_stages (scope : s.scope = {})
    (count : ty.params.length = ctx.function.params.length)
    (run : (lowerFunction ctx).run s = .ok (u, s')) :
    ∃ s₁ s₂ s₃ s₄ exit left,
      Stages ty.params.length ctx { s with builder := laidOut sym ty } s₁ s₂ s₃ s₄ exit left ∧
      s'.builder = Lowering.returning s₄.leaving exit ∧ s'.module = s₄.module := by
  obtain ⟨s₁, exit, s₂, left, s₃, s₄, stores, prepares, lowers, ends, rfl⟩ := lowerFunction_ok start run
  have ready : Ready ty.params.length { s with builder := laidOut sym ty } :=
    ⟨⟨sound_laidOut sym ty, open_laidOut.mpr (by decide), by simp [scope, Scope.all, Table.values, Table.empty]⟩,
      open_laidOut.mpr (show bodyBlock < 3 by decide), show bodyBlock ≠ 0 by decide⟩
  have stored := storeParams_runs ready (by omega) stores
  obtain ⟨prepared, kept⟩ := prepareExit_runs stored.ready prepares
  have body := lowerBlock_runs (fun stmt _ => flows { ctx with exit } stmt) prepared.ready kept lowers
  have ended : Runs ty.params.length true s₂ s₄ := by
    subst ends
    cases left with
    | true => exact body
    | false => exact body.trans (branch_runs body.ready body.held.sound.three_le)
  have whole := (stored.trans prepared).trans ended
  have finished : Finished ty.params.length s₄ := by
    refine ⟨whole.held, fun i => ?_⟩
    rw [whole.waiting, open_laidOut]
    change i < 3 ∧ i ≠ bodyBlock ∨ _ ↔ _
    simp only [entryBlock, bodyBlock, quitBlock, Bool.true_eq_false, false_and, or_false]
    omega
  exact ⟨s₁, s₂, s₃, s₄, exit, left, ⟨ready, stores, stored, prepares, prepared, kept, lowers, body, ends, ended,
    finished⟩, finished.builder_returned exit, State.returned_module _ exit⟩

/-- A whole function, from its parameters to its return. -/
theorem lowerFunction_ssaGraph (scope : s.scope = {})
    (count : ty.params.length = ctx.function.params.length)
    (run : (lowerFunction ctx).run s = .ok (u, s')) :
    s'.builder.function.SsaGraph ∧ s'.builder.refused = [] ∧ s'.builder.function.symbol = sym ∧
      s'.builder.function.type = ty ∧ s.module.Extends s'.module := by
  obtain ⟨s₁, s₂, s₃, s₄, exit, left, stages, builder, mod⟩ := lowerFunction_stages start scope count run
  obtain ⟨graph, refused, more⟩ := stages.returning rfl
  have grows := (stages.whole.grows.trans stages.finished.grows_leaving).trans more
  rw [builder, mod]
  exact ⟨graph, refused, grows.symbol, grows.type, stages.whole.module⟩

theorem lowerFunction_internal (scope : s.scope = {})
    (count : ty.params.length = ctx.function.params.length)
    (run : (lowerFunction ctx).run s = .ok (u, s')) : s'.builder.function.internal = false := by
  obtain ⟨s₁, s₂, s₃, s₄, exit, left, stages, builder, mod⟩ := lowerFunction_stages start scope count run
  obtain ⟨-, -, more⟩ := stages.returning rfl
  rw [builder]
  exact ((stages.whole.grows.trans stages.finished.grows_leaving).trans more).internal

end

/-- The body of a function of the program, as lowering has built it from an empty first block. -/
structure Built (prog : Program) (src : Function) (body : Ir.Function) : Prop where
  graph : body.SsaGraph
  run : ∃ start final : State, start.builder = .start body.symbol body.type ∧
    (lowerFunction { program := prog, function := src }).run start = .ok ((), final) ∧
    final.builder.function = body ∧ final.builder.refused = []

/-- Every body in the module was built from a function of the program. -/
def BodiesBuilt (prog : Program) (mod : Ir.Module) : Prop :=
  ∀ sym body, mod.function? sym = some body → body.isDeclaration = false →
    ∃ src owner, (src, owner) ∈ allFunctions prog ∧ src.isExternal = false ∧ Built prog src body

variable {prog : Program} {mod mod' : Ir.Module} {fns : List (Function × Option Class)}

theorem BodiesBuilt.extend (built : BodiesBuilt prog mod) (more : mod.Extends mod') :
    BodiesBuilt prog mod' := by
  intro sym body found given
  rcases more.bodies sym body found with old | declared
  · exact built sym body old given
  · rw [declared] at given
    contradiction

theorem BodiesBuilt.putFunction (built : BodiesBuilt prog mod)
    (given : fn.isDeclaration = false → ∃ src owner, (src, owner) ∈ allFunctions prog ∧
      src.isExternal = false ∧ Built prog src fn) :
    BodiesBuilt prog (mod.putFunction fn) := by
  intro sym body found
  simp only [Ir.Module.putFunction, Ir.Module.function?, Table.get?_insert] at found
  split at found
  · cases found
    exact given
  · exact built sym body found

theorem declareAll_built (built : BodiesBuilt prog mod)
    (run : declareAll prog fns mod = .ok mod') : BodiesBuilt prog mod' :=
  declareAll_induct run built fun _ _ _ _ _ built => built.putFunction (by simp [Ir.Function.isDeclaration])

theorem externals_built (externals : List (String × Ir.FunctionType))
    (built : BodiesBuilt prog mod) :
    BodiesBuilt prog (externals.foldl (fun m (sym, ty) => m.declare sym ty) mod) := by
  induction externals generalizing mod with
  | nil => exact built
  | cons ext rest ih => exact ih (built.extend (.declare ..))

theorem globals_functions (globals : List Ir.Global) (mod : Ir.Module) :
    (globals.foldl (fun m g => { m with globals := m.globals.insert g.name g }) mod).functions =
      mod.functions := by
  induction globals generalizing mod with
  | nil => rfl
  | cons global rest ih => exact ih _

/-- One function after the other. Each is built on its own; the module keeps what it has. -/
theorem defineAll_built (sub : fns ⊆ allFunctions prog) (built : BodiesBuilt prog mod)
    (run : defineAll prog fns mod = .ok mod') :
    BodiesBuilt prog mod' ∧ ∀ src owner, (src, owner) ∈ fns → src.isExternal = false →
      ∃ body, body.symbol = (Signature.ofFunction src owner).symbol ∧ Built prog src body := by
  induction fns generalizing mod with
  | nil =>
    simp only [defineAll, pure_ok] at run
    exact ⟨run ▸ built, by simp⟩
  | cons entry rest ih =>
    obtain ⟨fn, owner⟩ := entry
    obtain ⟨mem, sub⟩ := cons_subset.mp sub
    rcases defineAll_cons_ok run with ⟨elsewhere, run⟩ | ⟨ty, final, here, typed, lowers, run⟩
    · obtain ⟨all, each⟩ := ih sub built run
      refine ⟨all, fun src owner there given => ?_⟩
      rcases mem_cons.mp there with same | there
      · cases same
        rw [elsewhere] at given
        contradiction
      · exact each src owner there given
    · obtain ⟨graph, refused, sym, same, more⟩ := lowerFunction_ssaGraph rfl rfl (functionType_count typed) lowers
      have body : Built prog fn final.builder.function :=
        ⟨graph, _, final, by rw [sym, same], lowers, rfl, refused⟩
      obtain ⟨all, each⟩ := ih sub
        ((built.extend more).putFunction fun _ => ⟨fn, owner, mem, here, body⟩) run
      refine ⟨all, fun src owner there given => ?_⟩
      rcases mem_cons.mp there with same | there
      · cases same
        exact ⟨_, sym, body⟩
      · exact each src owner there given

/-- In a lowered program every body is a graph in single-assignment form, built from a function of
the program without a lost terminator; and every function with a body of its own is built so. -/
theorem lower_ssaGraph {workers : Nat} (lowered : prog.lower workers = .ok mod) :
    (∀ sym body, mod.function? sym = some body → body.isDeclaration = false →
      ∃ src owner, (src, owner) ∈ allFunctions prog ∧ src.isExternal = false ∧
        Built prog src body) ∧
    ∀ src owner, (src, owner) ∈ allFunctions prog → src.isExternal = false →
      ∃ body, body.symbol = (Signature.ofFunction src owner).symbol ∧ Built prog src body := by
  obtain ⟨structs, instances, globals, externals, prototypes, first, second, -, -, declares, defines⟩ :=
    lower_ok lowered
  have none : BodiesBuilt prog
      (globals.foldl (fun m g => { m with globals := m.globals.insert g.name g }) instances) := by
    intro sym body found
    rw [Ir.Module.function?, globals_functions, (lowerInstances_ok second).1, (lowerStructures_ok first).1] at found
    contradiction
  exact defineAll_built (Subset.refl _) (declareAll_built (externals_built externals none) declares) defines

/-- A loop that counts its parameter down. -/
def countdown : Program where
  file := ⟨"count.tn"⟩
  functions := [{
    name := "main"
    params := [⟨"n", .named "int"⟩]
    result := .named "int"
    body := [
      .loop 2 .whenTrue (.name ⟨0, 2⟩ "n") [
        .assign 3 (.name ⟨1, 3⟩ "n")
          (.binary ⟨4, 3⟩ .subtract (.name ⟨2, 3⟩ "n") (.literal ⟨3, 3⟩ (.integer .int 1)))],
      .leave 4 (some (.name ⟨5, 4⟩ "n"))]
    isPublic := true
    isStatic := false
    isStdcall := false
    isVariadic := false
    classOffset := 0
    line := 1
    origin := ⟨"count.tn"⟩ }]

def hasBody (sym : String) : Except Error Ir.Module → Bool
  | .ok mod => (mod.function? sym).any fun body => ! body.isDeclaration
  | .error _ => false

theorem exists_body (has : hasBody sym res = true) :
    ∃ mod body, res = .ok mod ∧ mod.function? sym = some body ∧ body.isDeclaration = false := by
  cases res with
  | error _ => contradiction
  | ok mod =>
    rw [hasBody, Option.any_eq_true] at has
    obtain ⟨body, found, given⟩ := has
    exact ⟨mod, body, rfl, found, by simpa using given⟩

theorem countdown_hasBody : hasBody "main" (countdown.lower 1) = true := by decide +kernel

theorem countdown_ssaGraph : ∃ mod body, countdown.lower 1 = .ok mod ∧
    mod.function? "main" = some body ∧ body.isDeclaration = false ∧ body.SsaGraph := by
  obtain ⟨mod, body, lowered, found, given⟩ := exists_body countdown_hasBody
  obtain ⟨_, _, -, -, built⟩ := (lower_ssaGraph lowered).1 "main" body found given
  exact ⟨mod, body, lowered, found, given, built.graph⟩

end TernLang.Lowering
