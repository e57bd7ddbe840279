import Mathlib.Data.List.Forall2
import TernLang.Proofs.Lowering.StmtInversion
import TernLang.Proofs.Typing.Overload

/-! What the lowering of signatures, of a whole function and of a program's functions has done
if it succeeded. -/
namespace TernLang

namespace Lowering

open Success

def Solid (prog : Program) (loc : Location) (ty : TypeName) (lowered : IrType) : Prop :=
  prog.irType loc ty = .ok lowered ∧ lowered ≠ .void

variable {prog : Program} {loc : Location} {mod mod' : Ir.Module} {ty : Ir.FunctionType}
  {sig : Signature} {owner : Option Class} {fn : Function}

theorem paramTypes_ok {types : List TypeName} {lowered : List IrType}
    (run : functionType.paramTypes prog loc sig types = .ok lowered) :
    List.Forall₂ (Solid prog loc) types lowered := by
  induction types generalizing lowered with
  | nil =>
    simp only [functionType.paramTypes, pure_ok] at run
    exact run ▸ .nil
  | cons ty types ih =>
    simp only [functionType.paramTypes, bind_ok] at run
    obtain ⟨first, found, run⟩ := run
    split at run
    · simp at run
    · next solid =>
      simp only [bind_ok, pure_ok] at run
      obtain ⟨rest, others, rfl⟩ := run
      exact .cons ⟨found, solid⟩ (ih others)

theorem functionType_ok (run : functionType prog loc sig = .ok ty) :
    List.Forall₂ (Solid prog loc) sig.declaredParams ty.params ∧
      prog.irType loc sig.result = .ok ty.result ∧
      ty.variadic = (sig.variadic == .foreign) ∧ ty.stdcall = sig.isStdcall := by
  simp only [functionType, bind_ok, pure_ok] at run
  obtain ⟨params, lowers, res, found, rfl⟩ := run
  exact ⟨paramTypes_ok lowers, found, rfl, rfl⟩

theorem functionType_count (run : functionType prog loc (Signature.ofFunction fn owner) = .ok ty) :
    ty.params.length = fn.params.length := by
  rw [← (functionType_ok run).1.length_eq, Signature.declaredParams_ofFunction, Function.paramTypes, List.length_map]

variable {ctx : Context} {s s' : State} {u : Unit} {exit : Option ExitSlot}

theorem storeParams_cons_ok (run : (storeParams ctx idx (param :: params)).run s = .ok (u, s')) :
    ∃ lowered, ctx.program.irType (ctx.location ctx.function.line) param.type = .ok lowered ∧
      s.scope.hasHere param.name = false ∧
      (storeParams ctx (idx + 1) params).run
        ((s.withSlot lowered ⟨.argument idx, lowered⟩).withVariable
        param.name ⟨.register s.builder.nextRegister .pointer, param.type⟩) = .ok (u, s') := by
  simp only [storeParams, run_bind_ok, run_lift_ok, build_ok] at run
  obtain ⟨lowered, _, ⟨found, rfl⟩, _, _, ⟨rfl, rfl⟩, _, _, ⟨-, rfl⟩, _, _, defined, run⟩ := run
  obtain ⟨free, rfl⟩ := defineVariable_ok defined
  exact ⟨_, found, free, run⟩

theorem prepareExit_ok (run : (prepareExit ctx).run s = .ok (exit, s')) :
    ∃ lowered,
      ctx.program.irType (ctx.location ctx.function.line) ctx.function.result = .ok lowered ∧
      (lowered = .void ∧ exit = none ∧ s' = s ∨
       lowered ≠ .void ∧ exit = some ⟨.register s.builder.nextRegister .pointer, lowered⟩ ∧
         s' = s.withSlot lowered (.zero lowered)) := by
  simp only [prepareExit, run_bind_ok, run_lift_ok] at run
  obtain ⟨lowered, _, ⟨found, rfl⟩, run⟩ := run
  refine ⟨_, found, ?_⟩
  split at run
  · next void =>
    simp only [run_pure_ok] at run
    exact .inl ⟨void, run.1, run.2⟩
  · next solid =>
    obtain ⟨_, _, ⟨rfl, rfl⟩, _, _, ⟨-, rfl⟩, rfl, rfl⟩ := run
    exact .inr ⟨solid, rfl, rfl⟩

def State.returned (s : State) : Option ExitSlot → State
  | some slot => ((s.built (.position quitBlock)).built (.load slot.type slot.pointer)).built
      (.ret (some (.register s.builder.nextRegister slot.type)))
  | none => (s.built (.position quitBlock)).built (.ret none)

@[simp] theorem State.returned_module (s : State) (exit : Option ExitSlot) :
    (s.returned exit).module = s.module := by
  cases exit <;> rfl

theorem lowerQuit_ok (run : (lowerQuit exit).run s = .ok (u, s')) : s' = s.returned exit := by
  cases exit with
  | none =>
    obtain ⟨_, _, ⟨-, rfl⟩, -, rfl⟩ := run
    rfl
  | some slot =>
    obtain ⟨_, _, ⟨-, rfl⟩, _, _, ⟨rfl, rfl⟩, -, rfl⟩ := run
    rfl

def laidOut (sym : String) (ty : Ir.FunctionType) : Ir.Builder :=
  { function := { symbol := sym, type := ty, blocks :=
    [{ label := "entry" }, { label := "body" }, { label := "quit" }] }
    current := bodyBlock }

theorem lowerFunction_ok (start : s.builder = .start sym ty)
    (run : (lowerFunction ctx).run s = .ok (u, s')) :
    ∃ s₁ exit s₂ left s₃ s₄,
      (storeParams ctx 0 ctx.function.params).run { s with builder := laidOut sym ty } =
        .ok ((), s₁) ∧
      (prepareExit ctx).run s₁ = .ok (exit, s₂) ∧
      (lowerBlock { ctx with exit } ctx.function.body).run s₂ = .ok (left, s₃) ∧
      s₄ = (if left then s₃ else s₃.built (.branch quitBlock)) ∧
      s' = ((s₄.built (.position entryBlock)).built (.branch bodyBlock)).returned exit := by
  obtain ⟨mod, builder, scope⟩ := s
  obtain rfl := start
  simp only [lowerFunction, run_bind_ok] at run
  obtain ⟨_, _, first, _, _, second, _, _, moves, _, s₁, stores, exit, s₂, prepares, left, s₃, lowers, run⟩ := run
  obtain ⟨-, rfl⟩ := first
  obtain ⟨-, rfl⟩ := second
  obtain ⟨-, rfl⟩ := moves
  refine ⟨s₁, exit, s₂, left, s₃, _, stores, prepares, lowers, rfl, ?_⟩
  cases left with
  | true =>
    simp only [Bool.not_true, Bool.false_eq_true, if_false, run_bind_ok, build_ok] at run
    obtain ⟨_, _, ⟨-, rfl⟩, _, _, ⟨-, rfl⟩, run⟩ := run
    exact lowerQuit_ok run
  | false =>
    simp only [Bool.not_false, if_true, run_bind_ok, build_ok] at run
    obtain ⟨_, _, ⟨-, rfl⟩, _, _, ⟨-, rfl⟩, _, _, ⟨-, rfl⟩, run⟩ := run
    exact lowerQuit_ok run

theorem lowerStructures_ok (run : lowerStructures prog structures mod = .ok mod') :
    mod'.functions = mod.functions ∧ mod'.globals = mod.globals := by
  induction structures generalizing mod with
  | nil =>
    simp only [lowerStructures, pure_ok] at run
    exact run ▸ ⟨rfl, rfl⟩
  | cons struct rest ih =>
    simp only [lowerStructures, bind_ok] at run
    obtain ⟨_, -, run⟩ := run
    have kept := ih run
    exact kept

theorem lowerInstances_ok (run : lowerInstances prog classes mod = .ok mod') :
    mod'.functions = mod.functions ∧ mod'.globals = mod.globals := by
  induction classes generalizing mod with
  | nil =>
    simp only [lowerInstances, pure_ok] at run
    exact run ▸ ⟨rfl, rfl⟩
  | cons cls rest ih =>
    simp only [lowerInstances, bind_ok] at run
    obtain ⟨_, -, run⟩ := run
    have kept := ih run
    exact kept

theorem lower_ok (run : prog.lower workers = .ok mod) :
    ∃ structs instances globals externals prototypes,
      lowerStructures prog prog.structures { name := moduleName prog.file } = .ok structs ∧
      lowerInstances prog prog.classes structs = .ok instances ∧
      Batch.run workers (storages prog) (lowerStorage prog) = .ok globals ∧
      Batch.run workers prog.externals (lowerExternal prog) = .ok externals ∧
      declareAll prog (allFunctions prog)
        (externals.foldl (fun m (sym, ty) => m.declare sym ty)
          (globals.foldl (fun m g => { m with globals := m.globals.insert g.name g }) instances)) = .ok prototypes ∧
      defineAll prog (allFunctions prog) prototypes = .ok mod := by
  simp only [Program.lower, bind_ok] at run
  obtain ⟨structs, first, instances, second, globals, third, externals, fourth, prototypes, fifth, sixth⟩ := run
  exact ⟨structs, instances, globals, externals, prototypes, first, second, third, fourth, fifth, sixth⟩

theorem defineAll_cons_ok (run : defineAll prog ((fn, owner) :: rest) mod = .ok mod') :
    (fn.isExternal = true ∧ defineAll prog rest mod = .ok mod') ∨
    ∃ ty final, fn.isExternal = false ∧
      functionType prog fn.location (Signature.ofFunction fn owner) = .ok ty ∧
      (lowerFunction { program := prog, function := fn }).run
        { module := mod, builder := .start (Signature.ofFunction fn owner).symbol ty } = .ok ((), final) ∧
      defineAll prog rest (final.module.putFunction final.builder.function) = .ok mod' := by
  simp only [defineAll] at run
  split at run
  · next elsewhere => exact .inl ⟨elsewhere, run⟩
  · next here =>
    simp only [bind_ok] at run
    obtain ⟨ty, typed, ⟨⟨⟩, final⟩, lowers, run⟩ := run
    exact .inr ⟨ty, final, by simpa using here, typed, lowers, run⟩

@[elab_as_elim]
theorem declareAll_induct {motive : Ir.Module → Prop} (run : declareAll prog fns mod = .ok mod')
    (start : motive mod) (step : ∀ entry ∈ fns, ∀ before ty, functionType prog entry.1.location
      (Signature.ofFunction entry.1 entry.2) = .ok ty → motive before → motive (before.putFunction
      { symbol := (Signature.ofFunction entry.1 entry.2).symbol, type := ty })) : motive mod' := by
  induction fns generalizing mod with
  | nil =>
    simp only [declareAll, pure_ok] at run
    exact run ▸ start
  | cons entry rest ih =>
    obtain ⟨mine, others⟩ := List.forall_mem_cons.mp step
    simp only [declareAll, bind_ok] at run
    obtain ⟨ty, typed, run⟩ := run
    exact ih run (mine mod ty typed start) others

@[elab_as_elim]
theorem defineAll_induct {motive : Ir.Module → Prop} (run : defineAll prog fns mod = .ok mod')
    (start : motive mod) (step : ∀ entry ∈ fns, entry.1.isExternal = false → ∀ before ty final,
      functionType prog entry.1.location (Signature.ofFunction entry.1 entry.2) = .ok ty →
      (lowerFunction { program := prog, function := entry.1 }).run
        { module := before, builder := .start (Signature.ofFunction entry.1 entry.2).symbol ty } = .ok ((), final) →
      motive before → motive (final.module.putFunction final.builder.function)) : motive mod' := by
  induction fns generalizing mod with
  | nil =>
    simp only [defineAll, pure_ok] at run
    exact run ▸ start
  | cons entry rest ih =>
    obtain ⟨mine, others⟩ := List.forall_mem_cons.mp step
    rcases defineAll_cons_ok run with ⟨-, run⟩ | ⟨ty, final, given, typed, lowers, run⟩
    · exact ih run start others
    · exact ih run (mine given mod ty final typed lowers start) others

end Lowering
end TernLang
