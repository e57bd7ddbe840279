import TernLang.Proofs.Core.StmtSimulation
import TernLang.Proofs.Lowering.Definitions

/-! Functions of the core do what they mean. A call makes its slots, fills those of its parameters
and of its result, runs the body and returns what is in the slot of the result. -/
namespace TernLang.Core

open List
open Ir (Builder)
open Lowering
open Machine (Caller Frame Image Linked Memory Reach Standing Store intSize offsetLimit regionAddress regionLimit)
open Activation (Holds)
open Success

section
variable {image : Image} {depth n count : Nat} {act : Activation} {m m' : Machine.State}
  {b : Builder}

namespace Activation

/-- The first block has made so many slots. -/
structure Entering (act : Activation) (count : Nat)
    (m : Machine.State) : Prop extends act.Allocated count m where
  made : m.store.memory.count = act.base + count
  block : ∃ full, act.final.function.block? 0 = some full ∧
    m.frame.block = { full with instructions := full.instructions.drop count }

theorem alloca_ne {i j reg : Nat} {ty ty' : IrType} (less : i < j)
    (first : act.final.entry[i]? = some (.alloca reg ty)) :
    act.final.entry[j]? ≠ some (.alloca reg ty') := by
  intro second
  have distinct : (act.final.entry.filterMap Ir.Instruction.result?).Nodup := by
    have all := act.graph.registers
    unfold Ir.Function.registers at all
    unfold Builder.entry Ir.Function.block?
    cases blocks : act.final.function.blocks with
    | nil => exact List.nodup_nil
    | cons block rest =>
      rw [blocks] at all
      exact (List.nodup_append.mp all).1
  obtain ⟨small, first⟩ := List.getElem?_eq_some_iff.mp first
  obtain ⟨small', second⟩ := List.getElem?_eq_some_iff.mp second
  have apart := List.pairwise_iff_getElem.mp (List.pairwise_filterMap.mp distinct) i j small small' less
  rw [first, second] at apart
  exact apart reg rfl reg rfl rfl

/-- One more slot, unless addresses have run out. -/
theorem Entering.step (image : Image) (depth : Nat) (entering : act.Entering count m)
    (more : count < act.final.entry.length) :
    ∃ m', Reach image depth 1 m m' ∧
      (regionLimit < m'.store.memory.count ∨ act.Entering (count + 1) m') := by
  obtain ⟨full, found, point⟩ := entering.block
  have entry : act.final.entry = full.instructions := by rw [Builder.entry, found]
  have bound : count < full.instructions.length := entry ▸ more
  obtain ⟨reg, scalar, slot⟩ := act.ints _ (getElem_mem more)
  have here : act.final.entry[count]? = some (.alloca reg (.int scalar.bits)) := by
    rw [getElem?_eq_getElem more, slot]
  have code : m.frame.block.instructions =
      .alloca reg (.int scalar.bits) :: full.instructions.drop (count + 1) := by
    rw [point, drop_eq_getElem_cons bound]
    simp only [entry] at slot
    rw [slot]
  have fits : ∀ scalar ∈ Scalar.all, ¬ intSize scalar.bits > offsetLimit := by decide +kernel
  let memory : Memory := ⟨act.base + count + 1,
    m.store.memory.regions.insert (act.base + count) { size := intSize scalar.bits }⟩
  have allocates : m.store.memory.allocate (intSize scalar.bits) =
      .ok (regionAddress (act.base + count), memory) := by
    rw [Memory.allocate, if_neg (fits scalar scalar.mem_all), entering.made]
    rfl
  have regions : ∀ num, memory.regions.get? num =
      if num = act.base + count then some { size := intSize scalar.bits }
      else m.store.memory.regions.get? num := fun _ => Sparse.get?_insert ..
  let frame : Frame := { m.frame.behind (full.instructions.drop (count + 1)) with
    allocations := regionAddress (act.base + count) :: m.frame.allocations
    registers := m.frame.registers.insert reg (.pointer (regionAddress (act.base + count))) }
  have steps : Machine.next image depth m = .ok (.running frame m.callers, { m.store with memory }) := by
    rw [Machine.next_perform code (by simp), Machine.perform_alloca rfl allocates]
    rfl
  refine ⟨_, .one (Allocated.calm entering.toAllocated (Nat.le_of_lt more)) steps
    (Nat.le_of_eq (congrArg (· + 1) entering.made.symm)), ?_⟩
  refine (Nat.lt_or_ge regionLimit (act.base + count + 1)).imp_right fun small =>
    ⟨⟨entering.home, entering.function, entering.args, entering.callers, ?_, ?_, ?_, ?_, Nat.le_refl _, small, ?_⟩,
      rfl, full, found, ?_⟩
  · change (regionAddress (act.base + count) :: m.frame.allocations).reverse = _
    rw [reverse_cons, range_succ, map_append, ← entering.slots]
    rfl
  · intro i less other ty there
    refine (Sparse.get?_insert ..).trans ?_
    rcases Nat.lt_or_eq_of_le (Nat.le_of_lt_succ less) with before | rfl
    · rw [if_neg, entering.pointers i before other ty there]
      rintro rfl
      exact alloca_ne before there here
    · rw [there, Option.some.injEq, Ir.Instruction.alloca.injEq] at here
      rw [if_pos here.1]
  · intro i less other bits there
    rcases Nat.lt_or_eq_of_le (Nat.le_of_lt_succ less) with before | rfl
    · obtain ⟨region, old, size⟩ := entering.live i before other bits there
      exact ⟨region, ((regions _).trans (if_neg (by omega))).trans old, size⟩
    · rw [there, Option.some.injEq, Ir.Instruction.alloca.injEq, IrType.int.injEq] at here
      exact ⟨_, (regions _).trans (if_pos rfl), by rw [here.2]⟩
  · intro num less
    exact ((regions num).trans (if_neg (by omega))).trans (entering.below num less)
  · rw [entering.store]
  · rw [show frame.block = { m.frame.block with instructions := full.instructions.drop (count + 1) } from rfl, point]

theorem Entering.all (image : Image) (depth : Nat) (entering : act.Entering count m)
    (le : count ≤ act.final.entry.length) :
    ∃ n m', Reach image depth n m m' ∧ (regionLimit < m'.store.memory.count ∨
      act.Entering act.final.entry.length m') := by
  induction left : act.final.entry.length - count generalizing count m with
  | zero =>
    obtain rfl : count = act.final.entry.length := by omega
    exact ⟨0, m, .here m, .inr entering⟩
  | succ left ih =>
    obtain ⟨m₁, reach₁, full | entering₁⟩ := entering.step image depth (by omega)
    · exact ⟨1, m₁, reach₁, .inl full⟩
    · obtain ⟨n, m₂, reach₂, done⟩ := ih entering₁ (by omega) (by omega)
      exact ⟨1 + n, m₂, reach₁.trans reach₂, done⟩

/-- A function that is entered gets to its body, unless addresses run out. -/
theorem enters (image : Image) (depth : Nat) (act : Activation) (small : act.base ≤ regionLimit)
    (found : act.final.function.block? entryBlock = some first)
    (ends : first.terminator = some (.branch bodyBlock))
    (there : act.final.function.block? bodyBlock = some body) :
    ∃ frame n m', Frame.enter? act.home act.final.function act.args = some frame ∧
      Reach image depth n ⟨frame, act.callers, act.entered⟩ m' ∧
      (regionLimit < m'.store.memory.count ∨ 1 ≤ n ∧ act.Begins bodyBlock m') := by
  let frame : Frame := { home := act.home, function := act.final.function, block := first, args := act.args }
  have known : Frame.enter? act.home act.final.function act.args = some frame := by
    rw [Frame.enter?, show act.final.function.block? 0 = some first from found]
    rfl
  have start : act.Entering 0 ⟨frame, act.callers, act.entered⟩ :=
    ⟨⟨rfl, rfl, rfl, rfl, rfl, by simp, by simp, fun _ _ => rfl, Nat.le_refl _, small, rfl⟩, rfl, first, found, rfl⟩
  obtain ⟨n, m₁, reach, full | entering⟩ := start.all image depth (Nat.zero_le _)
  · exact ⟨frame, n, m₁, known, reach, .inl full⟩
  · have running : act.Running m₁ := entering.toAllocated
    obtain ⟨first', found', point⟩ := entering.block
    obtain rfl : first = first' := Option.some.inj (found.symm.trans found')
    have code : m₁.frame.block.instructions = [] := by
      rw [point, Builder.entry, found', drop_length]
    have leaves : m₁.frame.block.terminator = some (.branch bodyBlock) := by rw [point]; exact ends
    have steps : Machine.next image depth m₁ =
        .ok (.running { m₁.frame with block := body } m₁.callers, m₁.store) :=
      Machine.next_branch code leaves (running.function ▸ there)
    exact ⟨frame, n + 1, _, known, reach.trans (.one running.calm steps (Nat.le_succ _)),
      .inr ⟨Nat.le_add_left .., running.begins there⟩⟩

end Activation

theorem holds_argument (given : frame.args[idx]? = some datum.slot) :
    Holds image n frame ⟨.argument idx, .int datum.scalar.bits⟩ datum where
  type := rfl
  eval frame' agrees store := by
    simp only [Machine.eval, agrees.args, given]
    rfl

end

section
variable (image : Image) (depth : Nat) {act : Activation} {m m' : Machine.State} {ctx : Context}
  {params : Nat} {s s' : State} {u : Unit}

theorem params_simulate (plain : ctx.program.aliases = [])
    (types : fields.map (·.type) = data.map (·.scalar.type)) (ready : Ready params s)
    (enough : idx + fields.length ≤ params) (run : (storeParams ctx idx fields).run s = .ok (u, s'))
    (args : act.args.drop idx = data.map Datum.slot) (grows : s'.builder.Grows act.final)
    (here : act.Here s.builder m) (holds : ScopeHolds act m.store.memory s.scope [table]) :
    ∃ n m', Reach image depth n m m' ∧ act.Here s'.builder m' ∧
      ScopeHolds act m'.store.memory s'.scope [bindParams fields data table] := by
  induction fields generalizing idx data table s m with
  | nil =>
    obtain ⟨-, rfl⟩ := run_pure_ok.mp run
    exact ⟨0, m, .here m, here, by rwa [bindParams.eq_2 _ _ _ (by simp)]⟩
  | cons field fields ih =>
    cases data with
    | nil => contradiction
    | cons datum data =>
      rw [map_cons, map_cons, cons.injEq] at types
      rw [length_cons] at enough
      obtain ⟨lowered, solid, -, run⟩ := storeParams_cons_ok run
      rw [types.1, irType_scalar plain] at solid
      cases solid
      have runs := storeParam_runs ready (show idx < params by omega) (.int datum.scalar.bits) field
      have rest := storeParams_runs runs.ready (by omega) run
      have given : m.frame.args[idx]? = some datum.slot := by
        have first := congrArg head? args
        rw [head?_drop] at first
        rw [here.1.args, first]
        rfl
      obtain ⟨m₁, reach₁, here₁, slot, others⟩ := withSlot_stores datum ready here (rest.grows.trans grows)
        (holds_argument (n := 0) given)
      have unused := unused_next ready.toHeld
      obtain ⟨n, m₂, reach₂, here₂, holds₂⟩ := ih types.2 runs.ready (by omega) run
        (by rw [← drop_drop, args]; rfl) here₁
        ((holds.fill others unused).define ⟨_, rfl, types.1, slot⟩ unused)
      exact ⟨1 + n, m₂, reach₁.trans reach₂, here₂, holds₂⟩

theorem exit_simulates (plain : ctx.program.aliases = []) (core : CoreFunction ctx.function)
    (ready : Ready params s) (run : (prepareExit ctx).run s = .ok (exit, s'))
    (grows : s'.builder.Grows act.final) (here : act.Here s.builder m)
    (holds : ScopeHolds act m.store.memory s.scope env) :
    ∃ n m', Reach image depth n m m' ∧ act.Here s'.builder m' ∧
      EnvHolds act m'.store.memory { ctx with exit } s'.scope env := by
  obtain ⟨lowered, found, cases⟩ := prepareExit_ok run
  rcases core.result with void | ⟨scalar, ty⟩
  · rw [void, irType_void plain] at found
    cases found
    obtain ⟨-, rfl, rfl⟩ | ⟨solid, -⟩ := cases
    · have falls : fallen ctx.function = none := by
        rw [fallen, void]
        rfl
      exact ⟨0, m, .here m, here, holds, by rw [falls]; exact ⟨rfl, void⟩, by simp⟩
    · exact absurd rfl solid
  · rw [ty, irType_scalar plain] at found
    cases found
    obtain ⟨void, -⟩ | ⟨-, rfl, rfl⟩ := cases
    · contradiction
    · have falls : fallen ctx.function = some (.of scalar 0) := by
        rw [fallen, ty, Scalar.ofType?_type]
        rfl
      have zero : Holds image 0 m.frame (.zero (.int scalar.bits)) (.of scalar 0) :=
        Activation.holds_zero scalar m.frame
      obtain ⟨m', reach, here', slot, others⟩ := withSlot_stores (.of scalar 0) ready here grows zero
      have unused := unused_next ready.toHeld
      refine ⟨1, m', reach, here', holds.fill others unused, ?_, ?_⟩
      · rw [falls]
        exact ⟨ty, _, rfl, slot⟩
      · rintro slot ⟨⟩
        exact unused

theorem Activation.Running.releases (running : act.Running m) :
    ∃ memory, m.store.memory.releaseAll m.frame.slots = .ok memory ∧
      memory.count = m.store.memory.count ∧
      ∀ num < act.base, memory.regions.get? num = act.entered.memory.regions.get? num := by
  have owns := Allocated.owns running (Nat.le_refl _)
  obtain ⟨memory, released, count, regions⟩ := Memory.releaseAll_regionAddress (act.nodup_numbers _) fun num mem =>
    ⟨Nat.lt_of_lt_of_le (owns num mem).2.1 running.small, (owns num mem).2.2⟩
  refine ⟨memory, Allocated.slots_eq running ▸ released, count, fun num less => ?_⟩
  rw [regions, if_neg, running.below num less]
  intro mem
  have := (owns num mem).1
  omega

theorem Activation.Running.returns (running : act.Running m) (typed : ResultTyped fn result)
    (code : m.frame.block.instructions = []) (ends : m.frame.block.terminator = some (.ret val))
    (void : val = none → resultSlot result = .void) (valued : ∀ v, val = some v →
      (Machine.eval image m.frame v).run m.store = .ok (resultSlot result, m.store)) :
    Returns image depth fn act.callers act.entered result m := by
  obtain ⟨memory, released, count, below⟩ := running.releases
  have steps : Machine.next image depth m = _ := Machine.next_ret code ends void valued released
  rw [running.callers, running.store] at steps
  refine ⟨typed, running.calm, memory, steps, ?_, Nat.le_of_eq count, count ▸ running.small, below⟩
  rw [count]
  exact Nat.le_trans (Nat.le_add_right ..) running.enough

theorem return_simulates {b : Builder} (idle : b.Idle quitBlock)
    (final : act.final = returning (b.positioned quitBlock) ctx.exit)
    (begins : act.Begins quitBlock m) (exits : act.ExitHolds m.store.memory ctx result) :
    ∃ n m', Reach image depth n m m' ∧
      Returns image depth ctx.function act.callers act.entered result m' := by
  have here := begins.here idle
  cases result with
  | none =>
    obtain ⟨absent, void⟩ := exits
    rw [absent] at final
    have grows : ((b.positioned quitBlock).terminated (.ret none)).Grows act.final := final ▸ Builder.Grows.refl _
    obtain ⟨code, ends⟩ := here.ends grows
    exact ⟨0, m, .here m, here.1.returns image depth void code ends (fun _ => rfl) fun _ none => by contradiction⟩
  | some datum =>
    obtain ⟨ty, reg, found, stored⟩ := exits
    rw [found] at final
    obtain ⟨i, there, reads⟩ := stored.reads here.1
    let loaded : Builder := (b.positioned quitBlock).appended (b.nextRegister + 1)
      [.load b.nextRegister (.int datum.scalar.bits) (.register reg .pointer)]
    have ended : (loaded.terminated (.ret (some (.register b.nextRegister (.int datum.scalar.bits))))).Grows
        act.final := final ▸ Builder.Grows.refl _
    have waits : loaded.Open loaded.current := by
      obtain ⟨label, empty⟩ := idle
      exact (Builder.open_appended ..).mpr ⟨_, empty, rfl⟩
    obtain ⟨m', reach, moves, holds⟩ := here.assigns depth (show quitBlock ≠ 0 by decide)
      ((Builder.grows_terminated waits).trans ended) (by simp) rfl fun rest =>
        Machine.perform_load (here.1.eval_pointer there image (m.frame.behind rest) rfl m.store) reads
    obtain ⟨code, ends⟩ := moves.here.ends ended
    refine ⟨1, m', reach, moves.here.1.returns image depth ty code ends (fun none => by contradiction) ?_⟩
    rintro _ ⟨⟩
    exact holds.eval m'.frame (.refl _ _) m'.store

end

theorem entry_returning (finished : Finished params s) (grows : s.leaving.Grows final) :
    ∃ first, final.function.block? entryBlock = some first ∧
      first.terminator = some (.branch bodyBlock) := by
  obtain ⟨block, found, -⟩ := finished.held.entry
  have ended : s.leaving.function.block? entryBlock = some { block with terminator := some (.branch bodyBlock) } := by
    change ((s.builder.positioned entryBlock).terminated (.branch bodyBlock)).function.block? entryBlock = _
    rw [Builder.block?_terminated, show (s.builder.positioned entryBlock).function.block? entryBlock = some block
      from found]
    rfl
  obtain ⟨first, found', -, -, kept⟩ := grows.blocks _ _ ended
  rw [kept rfl] at found'
  exact ⟨_, found', rfl⟩

variable {image : Image} {depth fuel : Nat} {prog : Program} {home : Linked}

/-- A call of a function does what the source says if the calls it makes do. -/
theorem function_simulates (core : IsCore prog) (functions : FunctionsRun image depth home prog fuel)
    (known : fn ∈ prog.functions) {ty : Ir.FunctionType}
    (count : ty.params.length = fn.params.length)
    (run : (lowerFunction { program := prog, function := fn }).run
      { module := mod, builder := .start sym ty } = .ok ((), final))
    (types : fn.paramTypes = args.map (·.scalar.type))
    (standing : Standing store.memory store.memory.count (callers.map (·.frame)))
    (small : store.memory.count ≤ regionLimit) :
    ∃ frame, Frame.enter? home final.builder.function (args.map Datum.slot) = some frame ∧
      Simulates image depth (callers.length + (fuel + 1)) (fuel + 1) ⟨frame, callers, store⟩
        (callFunction prog (fuel + 1) fn args) (Returns image depth fn callers store) := by
  have inCore := coreFunction (core.functions fn known)
  obtain ⟨s₁, s₂, s₃, s₄, exit, left, stages, builder, -⟩ := lowerFunction_stages rfl rfl count run
  obtain ⟨graph, -, last⟩ := stages.returning rfl
  obtain ⟨first, found, leads⟩ := entry_returning stages.finished last
  have ints : AllCode IntSlot final := lowerFunction_ints core inCore run (forall_mem_nil _)
  have entry := intSlots_entry ints
  rw [builder] at entry ⊢
  let act : Activation :=
    ⟨home, returning s₄.leaving exit, args.map Datum.slot, callers, store, graph, entry graph, standing⟩
  have grows₄ : s₄.builder.Grows act.final := stages.finished.grows_leaving.trans last
  have grows₂ : s₂.builder.Grows act.final := stages.ended.grows.trans grows₄
  have grows₁ : s₁.builder.Grows act.final := stages.prepared.grows.trans grows₂
  have start : (laidOut sym ty).Grows act.final := stages.stored.grows.trans grows₁
  obtain ⟨body, there⟩ := exists_block (open_laidOut.mpr (show bodyBlock < 3 by decide)) start
  obtain ⟨frame, n, m₁, entered, reach, ended⟩ := act.enters image depth small found leads there
  refine ⟨frame, entered, ?_⟩
  rcases ended with full | ⟨positive, begins⟩
  · exact .inl (.inl ⟨n, m₁, reach, full⟩)
  refine (Simulates.after reach ?_).weaken (show fuel + 1 ≤ n + fuel by omega)
  -- The parameters and the slot of the result.
  have here₁ : act.Here (laidOut sym ty) m₁ := begins.here (show (laidOut sym ty).Idle bodyBlock from ⟨"body", rfl⟩)
  have holds₁ : ScopeHolds act m₁.store.memory {} [.empty] :=
    ⟨.cons ⟨fun _ _ none => by contradiction, fun _ _ => rfl⟩ .nil,
      fun _ _ _ _ none => by contradiction, fun _ _ none => by contradiction, trivial⟩
  obtain ⟨n₂, m₂, reach₂, here₂, holds₂⟩ := params_simulate image depth core.aliases types stages.ready (by omega)
    stages.stores rfl grows₁ here₁ holds₁
  obtain ⟨n₃, m₃, reach₃, here₃, holds₃⟩ := exit_simulates image depth core.aliases inCore stages.stored.ready
    stages.prepares grows₂ here₂ holds₂
  refine .step (reach₂.trans reach₃) ?_
  -- The body, and the jump behind it.
  let ctx : Context := { program := prog, function := fn, exit }
  have same : IsCore ctx.program := core
  have each : ∀ stmt ∈ fn.body, Performed image depth fuel home ty.params.length ctx stmt := fun stmt mem =>
    stmt_performed same functions stmt (areCoreStmts_mem inCore.body stmt mem)
  have grows₃ : s₃.builder.Grows act.final := by
    obtain rfl := stages.ends
    cases left with
    | true => exact grows₄
    | false => exact (branch_runs stages.lowered.ready stages.lowered.held.sound.three_le).grows.trans grows₄
  have performed := block_simulates ⟨stages.prepared.ready, stages.kept, rfl, here₃, holds₃⟩ grows₃ each stages.lowers
  have idle : ((s₄.builder.positioned entryBlock).terminated (.branch bodyBlock)).Idle quitBlock := by
    have quit : s₄.builder.function.block? quitBlock = some { label := "quit" } :=
      stages.whole.others quitBlock (by decide) (open_laidOut.mpr (by decide)) (show quitBlock ≠ bodyBlock by decide)
    refine ⟨"quit", ?_⟩
    rw [Builder.block?_terminated, show (s₄.builder.positioned entryBlock).function.block? quitBlock = _ from quit]
    rfl
  have returns : ∀ m result, act.Begins quitBlock m → act.ExitHolds m.store.memory ctx result →
      ∃ n m', Reach image depth n m m' ∧ Returns image depth ctx.function act.callers act.entered result m' :=
    fun _ _ begins exits => return_simulates image depth idle rfl begins exits
  refine performed.bind ?_
  rintro (next | result) m₄ - given
  · obtain ⟨rfl, here₄, holds₄⟩ := given
    obtain rfl := stages.ends
    obtain ⟨m₅, reach₅, begins₅, store⟩ := quit_simulates stages.lowered.ready grows₄ here₄
    obtain ⟨n₆, m₆, reach₆, returned⟩ := returns m₅ (fallen fn) begins₅ (store ▸ holds₄.exit)
    exact .step (reach₅.trans reach₆) (.ok returned)
  · obtain ⟨n₅, m₅, reach₅, returned⟩ := returns m₄ result given.1 given.2
    exact .step reach₅ (.ok returned)

theorem definition?_eq (found : home.module.function? sym = some fn) (graph : fn.SsaGraph) :
    home.definition? sym = some fn := by
  obtain ⟨block, first⟩ := graph.exists_entry
  rw [Linked.definition?, found, Option.filter_some]
  unfold Ir.Function.block? at first
  cases blocks : fn.blocks with
  | nil =>
    rw [blocks] at first
    contradiction
  | cons => simp [Ir.Function.isDeclaration, blocks]

theorem exists_enter? (graph : fn.SsaGraph) (home : Linked) (args : List Machine.Slot) :
    ∃ frame, Frame.enter? home fn args = some frame := by
  obtain ⟨block, first⟩ := graph.exists_entry
  exact ⟨_, by rw [Frame.enter?, first]; rfl⟩

/-- All functions of a program do what the source says, whatever fuel they have. -/
theorem functions_run (core : IsCore prog)
    (compiled : ∀ fn ∈ prog.functions, Defines prog home.module fn none) (fuel : Nat) :
    FunctionsRun image depth home prog fuel := by
  induction fuel with
  | zero =>
    intro fn known args types
    obtain ⟨mod, ty, final, typed, run, found⟩ := compiled fn known
    have graph := (lowerFunction_ssaGraph rfl rfl (functionType_count typed) run).1
    refine ⟨_, definition?_eq found graph, fun callers store _ _ => ?_⟩
    obtain ⟨frame, entered⟩ := exists_enter? graph home (args.map Datum.slot)
    exact ⟨frame, entered, .inr ⟨0, _, Nat.le_refl _, .here _⟩⟩
  | succ fuel ih =>
    intro fn known args types
    obtain ⟨mod, ty, final, typed, run, found⟩ := compiled fn known
    have graph := (lowerFunction_ssaGraph rfl rfl (functionType_count typed) run).1
    exact ⟨_, definition?_eq found graph, fun callers store standing small =>
      function_simulates core ih known (functionType_count typed) run types standing small⟩

end TernLang.Core
