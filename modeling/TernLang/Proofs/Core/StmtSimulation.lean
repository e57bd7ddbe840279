import TernLang.Proofs.Core.ExprSimulation

/-! Code of a statement does what the statement means: it ends behind the statement with the
variables as the source has them, or at the block that returns with the result in its slot. -/
namespace TernLang.Core

open Ir (Builder)
open Lowering
open Machine (Image Linked Reach)
open Activation (Holds)
open Success

variable {polarity : Polarity} {name : String} {body : List Stmt} {cond : Expr}

section
variable {image : Image} {depth n tgt : Nat} {act : Activation} {ctx : Context} {params : Nat}
  {s s' : State} {m m' : Machine.State} {env : Env} {val : Ir.Value} {datum : Datum}
  {b b' : Builder} {block : Ir.Block}

theorem entry_prefix (grows : b.Grows b') : b.entry <+: b'.entry := by
  unfold Builder.entry
  split
  · next block found =>
    obtain ⟨block', found', -, more, -⟩ := grows.blocks 0 block found
    rw [found']
    exact more
  · exact List.nil_prefix

theorem Activation.Running.begins (running : act.Running m)
    (found : act.final.function.block? tgt = some block) :
    act.Begins tgt { m with frame := { m.frame with block } } :=
  ⟨running.next rfl rfl rfl rfl rfl (fun _ _ => rfl) rfl (Nat.le_refl _) running.small (fun _ _ => rfl)
    fun _ _ => rfl, found⟩

theorem exists_block (open_ : b.Open n) (grows : b.Grows act.final) :
    ∃ block, act.final.function.block? n = some block := by
  obtain ⟨block, found, -⟩ := open_
  obtain ⟨block', found', -⟩ := grows.blocks n block found
  exact ⟨block', found'⟩

theorem Activation.Here.jumps (here : act.Here b m)
    (grows : (b.terminated (.branch tgt)).Grows act.final)
    (found : act.final.function.block? tgt = some block) :
    ∃ m', Reach image depth 1 m m' ∧ act.Begins tgt m' ∧ m'.store = m.store := by
  obtain ⟨code, ends⟩ := here.ends grows
  have running := here.1
  exact ⟨_, .one running.calm (Machine.next_branch code ends (running.function ▸ found)) (Nat.le_succ _),
    running.begins found, rfl⟩

def permits (polarity : Polarity) (truth : Bool) : Bool :=
  match polarity with
  | .whenTrue => truth
  | .whenFalse => ! truth

theorem Activation.Here.branches (here : act.Here b m) {body past : Nat} {truth : Bool}
    (grows : (b.terminated (Polarity.terminator polarity val body past)).Grows act.final)
    (holds : Holds image n m.frame val (.ofBool truth))
    (found : act.final.function.block? body = some block)
    (found' : act.final.function.block? past = some block') :
    ∃ m', Reach image depth 1 m m' ∧ act.Begins (if permits polarity truth then body else past) m' ∧
      m'.store = m.store := by
  obtain ⟨code, ends⟩ := here.ends grows
  have running := here.1
  have word : (Machine.evalWord image m.frame val).run m.store = .ok (if truth then 1 else 0, m.store) := by
    rw [Machine.evalWord, run_bind_of_ok (holds.eval m.frame (.refl _ _) m.store), Datum.slot, Datum.word_ofBool]
    rfl
  have tgt : ∃ block, act.final.function.block? (if permits polarity truth then body else past) = some block := by
    split
    · exact ⟨block, found⟩
    · exact ⟨block', found'⟩
  obtain ⟨last, there⟩ := tgt
  refine ⟨_, .one running.calm ?_ (Nat.le_succ _), running.begins there, rfl⟩
  cases polarity with
  | whenTrue =>
    refine Machine.next_condBranch code ends word ?_
    rw [running.function, ← there]
    cases truth <;> rfl
  | whenFalse =>
    refine Machine.next_condBranch code ends word ?_
    rw [running.function, ← there]
    cases truth <;> rfl

theorem isSlot_fresh (held : Held params s) (slot : IsSlot s.builder.function.slots pointer) :
    pointer ≠ .register s.builder.nextRegister .pointer := by
  obtain ⟨reg, mem, rfl⟩ := slot
  have used := held.sound.fresh reg (Ir.Function.slots_subset_registers _ mem)
  intro same
  rw [Ir.Value.register, Ir.Value.register, Ir.Value.mk.injEq, Ir.Operand.register.injEq] at same
  omega

theorem unused_next (held : Held params s) :
    Unused s.scope (.register s.builder.nextRegister .pointer) :=
  fun table mem _ var found => isSlot_fresh held (held.scope var
    (List.mem_flatMap.mpr ⟨table, mem, List.mem_map.mpr ⟨_, Table.mem_of_find found, rfl⟩⟩))

theorem withSlot_stores (datum : Datum) (ready : Ready params s) (here : act.Here s.builder m)
    (grows : (s.withSlot (.int datum.scalar.bits) val).builder.Grows act.final)
    (holds : Holds image n m.frame val datum) :
    ∃ m', Reach image depth 1 m m' ∧ act.Here (s.withSlot (.int datum.scalar.bits) val).builder m' ∧
      act.SlotHolds m'.store.memory s.builder.nextRegister datum ∧
      act.KeptBut s.builder.nextRegister m.store.memory m'.store.memory := by
  obtain ⟨allocated, slot⟩ := emits_alloca ready (.int datum.scalar.bits)
  have stored : (s.builder.withSlot (.int datum.scalar.bits)).Grows
      (s.withSlot (.int datum.scalar.bits) val).builder := Builder.grows_appended allocated.ready.here
  have idx : act.final.entry[s.builder.entry.length]? =
      some (.alloca s.builder.nextRegister (.int datum.scalar.bits)) := by
    obtain ⟨rest, whole⟩ := entry_prefix (stored.trans grows)
    rw [← whole, Builder.entry_withSlot ready.entry]
    simp
  exact (here.withSlot ready.inside _).stores grows idx holds

theorem variable_simulates (datum : Datum) (ready : Ready params s) (kept : ExitIn ctx s)
    (here : act.Here s.builder m) (holds : EnvHolds act m.store.memory ctx s.scope env)
    (grows : ((s.withSlot (.int datum.scalar.bits) val).withVariable name
      ⟨.register s.builder.nextRegister .pointer, datum.scalar.type⟩).builder.Grows act.final)
    (stored : Holds image n m.frame val datum) :
    ∃ m', Reach image depth 1 m m' ∧ act.Here (s.withSlot (.int datum.scalar.bits) val).builder m' ∧
      EnvHolds act m'.store.memory ctx ((s.withSlot (.int datum.scalar.bits) val).withVariable name
        ⟨.register s.builder.nextRegister .pointer, datum.scalar.type⟩).scope
          (env.define name datum) := by
  obtain ⟨m', reach, here', slot, others⟩ := withSlot_stores datum ready here grows stored
  have unused := unused_next ready.toHeld
  have free := fun exit found => isSlot_fresh ready.toHeld (kept exit found)
  exact ⟨m', reach, here', (holds.fill others unused free).define ⟨_, rfl, rfl, slot⟩ unused fun exit found =>
    (free exit found).symm⟩

end

section
variable (image : Image) (depth fuel : Nat) (home : Linked)

/-- Where the machine is after statements that were lowered up to a state. -/
def FlowGiven (act : Activation) (ctx : Context) (left : Bool) (s : State) : Flow → Machine.State → Prop
  | .next env, m => left = false ∧ act.Here s.builder m ∧ EnvHolds act m.store.memory ctx s.scope env
  | .leave res, m => act.Begins quitBlock m ∧ act.ExitHolds m.store.memory ctx res

/-- The machine is where lowering is, with the variables as the source has them. -/
structure Posed (params : Nat) (ctx : Context) (act : Activation) (s : State) (m : Machine.State)
    (env : Env) : Prop where
  ready : Ready params s
  kept : ExitIn ctx s
  home : act.home = home
  here : act.Here s.builder m
  holds : EnvHolds act m.store.memory ctx s.scope env

/-- Wherever the statement is lowered, its code does what it means. -/
def Performed (params : Nat) (ctx : Context) (stmt : Stmt) : Prop :=
  ∀ {s s' : State} {u : Unit} {act : Activation} {m : Machine.State} {env : Env}, Posed home params ctx act s m env →
    (lowerStmt ctx stmt).run s = .ok (u, s') → s'.builder.Grows act.final →
      Simulates image depth (act.callers.length + fuel + 1) fuel m (execStmt (calls ctx.program fuel) fuel stmt env)
        (FlowGiven act ctx stmt.isTerminator s')

end

variable {image : Image} {depth fuel params line : Nat} {home : Linked} {ctx : Context}
  {s s' : State} {u : Unit} {act : Activation} {m : Machine.State} {env : Env}

section
variable (posed : Posed home params ctx act s m env) (grows : s'.builder.Grows act.final)
include posed grows

theorem declare_simulates (core : IsCore ctx.program)
    (run : (lowerDeclare ctx line name scalar.type).run s = .ok (u, s')) :
    Simulates image depth (act.callers.length + fuel + 1) fuel m
      (.ok (.next (env.define name (.of scalar 0)))) (FlowGiven act ctx false s') := by
  obtain ⟨ready, kept, -, here, holds⟩ := posed
  obtain ⟨lowered, solid, -, -, rfl⟩ := lowerDeclare_ok run
  rw [irType_scalar core.aliases] at solid
  cases solid
  have zero : Holds image 0 m.frame (.zero (.int scalar.bits)) (.of scalar 0) := Activation.holds_zero scalar m.frame
  obtain ⟨m', reach, here', holds'⟩ := variable_simulates (.of scalar 0) ready kept here holds grows zero
  exact .step reach (.ok ⟨rfl, here', holds'⟩)

theorem define_simulates (core : IsCore ctx.program) {scalar : Scalar}
    (computed : Computed image depth fuel home params ctx val)
    (run : (lowerDefine ctx line name scalar.type val).run s = .ok (u, s')) :
    Simulates image depth (act.callers.length + fuel + 1) fuel m
      (do return .next (env.define name (← evalExpr (calls ctx.program fuel) env val)))
      (FlowGiven act ctx false s') := by
  obtain ⟨ready, kept, same, here, holds⟩ := posed
  obtain ⟨lowered, typed, s₁, joined, solid, -, lowers, joins, -, rfl⟩ := lowerDefine_ok run
  rw [irType_scalar core.aliases] at solid
  cases solid
  obtain ⟨emits, usable⟩ := lowerExpr_yields ready lowers
  have more := (withSlot_emits emits.ready (.int scalar.bits) usable).1.grows.trans grows
  refine (computed ready lowers (joinInto_solid core.aliases _ joins) same more here holds).bind ?_
  rintro datum m₁ - ⟨ty, gives⟩
  rw [ty] at joins
  obtain rfl := joinInto_scalar core.aliases _ joins
  have holds₁ : EnvHolds act m₁.store.memory ctx s₁.scope env := emits.scope ▸ holds.kept gives.moves.kept
  obtain ⟨m', reach, here', holds'⟩ :=
    variable_simulates datum emits.ready (kept.mono emits.grows) gives.moves.here holds₁ grows gives.holds
  exact .step reach (.ok ⟨rfl, here', holds'⟩)

theorem assign_simulates (core : IsCore ctx.program) (computed : Computed image depth fuel home params ctx val)
    (run : (lowerAssign ctx line (.name mark name) val).run s = .ok (u, s')) :
    Simulates image depth (act.callers.length + fuel + 1) fuel m
      (do return .next (env.assign name (← evalExpr (calls ctx.program fuel) env val)))
      (FlowGiven act ctx false s') := by
  obtain ⟨ready, -, same, here, holds⟩ := posed
  obtain ⟨addr, s₁, typed, s₂, joined, addressed, lowers, joins, rfl⟩ := lowerAssign_ok run
  obtain ⟨rfl, ⟨var, found, rfl⟩ | ⟨-, global, known, -⟩⟩ := nameAddress_ok addressed
  · obtain ⟨emits, usable⟩ := lowerExpr_yields ready lowers
    have stores : s₂.builder.Grows (s₂.built (.store typed.value var.slot)).builder :=
      Builder.grows_appended emits.ready.here
    refine (computed ready lowers (joinInto_solid core.aliases _ joins) same (stores.trans grows) here holds).bind ?_
    rintro datum m₁ - ⟨ty, gives⟩
    have holds₁ : EnvHolds act m₁.store.memory ctx s₂.scope env := emits.scope ▸ holds.kept gives.moves.kept
    have found₁ : s₂.scope.lookup? name = some var := emits.scope ▸ found
    obtain ⟨old, -, reg, slot, oldType, i, there, -⟩ := holds₁.lookup found₁
    rw [ty, oldType] at joins
    have scalars := joinInto_scalar core.aliases _ joins
    rw [← scalars] at there oldType
    have built : s₂.built (.store typed.value var.slot) = s₂.built (.store typed.value (.register reg .pointer)) := by
      rw [slot]
    rw [built] at grows ⊢
    obtain ⟨m', reach, here', stored, others⟩ := gives.moves.here.stores grows there gives.holds
    exact .step reach (.ok ⟨rfl, here', holds₁.assign found₁ slot oldType stored others⟩)
  · rw [Program.global?, core.globals] at known
    contradiction

omit posed grows in
theorem quit_simulates (ready : Ready params s)
    (grows : (s.built (.branch quitBlock)).builder.Grows act.final) (here : act.Here s.builder m) :
    ∃ m', Reach image depth 1 m m' ∧ act.Begins quitBlock m' ∧ m'.store = m.store := by
  have ends : (s.built (.branch quitBlock)).builder = s.builder.terminated (.branch quitBlock) :=
    Builder.run_terminate ready.here _
  rw [ends] at grows
  have more := (Builder.grows_terminated ready.here).trans grows
  have small : quitBlock < act.final.function.blocks.length :=
    Nat.lt_of_lt_of_le ready.sound.three_le more.length_le
  exact here.jumps grows (List.getElem?_eq_getElem small)

theorem leave_simulates (core : IsCore ctx.program)
    (computed : ∀ expr, val = some expr → Computed image depth fuel home params ctx expr)
    (run : (lowerLeave ctx line val).run s = .ok (u, s')) :
    Simulates image depth (act.callers.length + fuel + 1) fuel m
      (execStmt (calls ctx.program fuel) fuel (.leave line val) env) (FlowGiven act ctx true s') :=
        by
  obtain ⟨ready, kept, same, here, holds⟩ := posed
  rcases lowerLeave_ok run with ⟨rfl, none, rfl⟩ | ⟨expr, exit, typed, s₁, joined, rfl, some, lowers, joins, rfl⟩
  · obtain ⟨m', reach, begins, store⟩ := quit_simulates ready grows here
    refine .step reach (.ok ⟨begins, none, ?_⟩)
    have exits := holds.exit
    cases res : fallen ctx.function with
    | none =>
      rw [res] at exits
      exact exits.2
    | some datum =>
      rw [res] at exits
      obtain ⟨-, reg, found, -⟩ := exits
      rw [none] at found
      contradiction
  · obtain ⟨emits, usable⟩ := lowerExpr_yields ready lowers
    have stored := emits_store emits.ready usable ((kept.mono emits.grows) exit some).usable
    have ends : (s₁.built (.store typed.value exit.pointer)).builder.Grows
        ((s₁.built (.store typed.value exit.pointer)).built (.branch quitBlock)).builder :=
      (branch_closes stored.ready stored.ready.sound.three_le).1.grows
    refine (computed expr rfl ready lowers (joinInto_solid core.aliases _ joins) same
      (stored.grows.trans (ends.trans grows)) here holds).bind ?_
    rintro datum m₁ - ⟨ty, gives⟩
    have exits := (holds.kept gives.moves.kept).exit
    cases res : fallen ctx.function with
    | none =>
      rw [res] at exits
      rw [exits.1] at some
      contradiction
    | some zero =>
      rw [res] at exits
      obtain ⟨returns, reg, found, i, there, -⟩ := exits
      rw [ty, returns] at joins
      have scalars := joinInto_scalar core.aliases _ joins
      obtain rfl : exit = ⟨.register reg .pointer, .int zero.scalar.bits⟩ :=
        Option.some.inj (some.symm.trans found)
      rw [← scalars] at there returns found
      obtain ⟨m₂, reach₂, here₂, written, -⟩ := gives.moves.here.stores (ends.trans grows) there gives.holds
      obtain ⟨m₃, reach₃, begins, store⟩ := quit_simulates stored.ready grows here₂
      exact .step (reach₂.trans reach₃) (.ok ⟨begins, returns, reg, found, store ▸ written⟩)

theorem block_simulates (each : ∀ stmt ∈ block, Performed image depth fuel home params ctx stmt)
    (run : (lowerBlock ctx block).run s = .ok (left, s')) :
    Simulates image depth (act.callers.length + fuel + 1) fuel m
      (execBlock (calls ctx.program fuel) fuel block env)
      (FlowGiven act ctx left s') := by
  induction block generalizing s m env with
  | nil =>
    obtain ⟨rfl, rfl⟩ := run_pure_ok.mp run
    exact .ok ⟨rfl, posed.here, posed.holds⟩
  | cons stmt block ih =>
    obtain ⟨_, s₁, first, run⟩ := run_bind_ok.mp run
    have runs := flows ctx stmt posed.ready posed.kept first
    split at run
    · next leaves =>
      obtain ⟨rfl, rfl⟩ := run_pure_ok.mp run
      refine (each stmt (by simp) posed first grows).bind ?_
      rintro (next | result) m₁ - given
      · rw [leaves] at given
        exact absurd given.1 (by decide)
      · exact .ok given
    · next stays =>
      rw [Bool.not_eq_true] at stays
      rw [stays] at runs
      have exits := posed.kept.mono runs.grows
      have rest := lowerBlock_runs (fun stmt _ => flows ctx stmt) runs.ready exits run
      refine (each stmt (by simp) posed first (rest.grows.trans grows)).bind ?_
      rintro (next | result) m₁ - given
      · exact ih ⟨runs.ready, exits, posed.home, given.2.1, given.2.2⟩
          (fun other mem => each other (by simp [mem])) run
      · exact .ok given

end

/-- Where the machine is after a nested block. -/
def ArmGiven (act : Activation) (ctx : Context) (next : Nat) (scope : Scope) : Flow → Machine.State → Prop
  | .next env, m => act.Begins next m ∧ EnvHolds act m.store.memory ctx scope env
  | .leave res, m => act.Begins quitBlock m ∧ act.ExitHolds m.store.memory ctx res

theorem arm_simulates (each : ∀ stmt ∈ body, Performed image depth fuel home params ctx stmt)
    (closes : Closes params first pending s₀ s) (new : block ∈ pending) (kept : ExitIn ctx s)
    (run : (lowerArm block next (lowerBlock ctx body)).run s = .ok (u, s')) (same : act.home = home)
    (grows : s'.builder.Grows act.final) (found : act.final.function.block? next = some tgt)
    (begins : act.Begins block m) (holds : EnvHolds act m.store.memory ctx s.scope env) :
    Simulates image depth (act.callers.length + fuel + 1) fuel m
      (nested (execBlock (calls ctx.program fuel) fuel body) env) (ArmGiven act ctx next s.scope) :=
        by
  obtain ⟨left, s₁, lowered, ends⟩ := lowerArm_ok run
  have ready := nested_ready closes.held (closes.waits new) (closes.fresh block new).1
  have exits : ExitIn ctx (s.nested block) := kept.mono (grows_positioned ..)
  have runs := lowerBlock_runs (fun stmt _ => flows ctx stmt) ready exits lowered
  have more : s₁.builder.Grows act.final := by
    rcases ends with ⟨-, rfl⟩ | ⟨rfl, rfl⟩
    · exact grows
    · have step : s₁.builder.Grows (s₁.builder.terminated (.branch next)) := Builder.grows_terminated runs.ready.here
      have same : (State.built { s₁ with scope := s₁.scope.parent } (.branch next)).builder =
          s₁.builder.terminated (.branch next) := Builder.run_terminate runs.ready.here _
      exact step.trans (same ▸ grows)
  refine (block_simulates ⟨ready, exits, same, begins.here (closes.idle new), holds.child⟩ more each lowered).bind ?_
  rintro (next' | result) m₁ - given
  · obtain ⟨rfl, here₁, holds₁⟩ := given
    rcases ends with ⟨contra, -⟩ | ⟨-, rfl⟩
    · contradiction
    · have same : (State.built { s₁ with scope := s₁.scope.parent } (.branch next)).builder =
          s₁.builder.terminated (.branch next) := Builder.run_terminate runs.ready.here _
      rw [same] at grows
      obtain ⟨m₂, reach, begins₂, store⟩ := here₁.jumps grows found
      exact .step reach (.ok ⟨begins₂, store ▸ holds₁.parent runs.outer⟩)
  · exact .ok given

theorem condition_simulates (core : IsCore ctx.program)
    (computed : Computed image depth fuel home params ctx cond) (ready : Ready params s)
    (run : (lowerCondition ctx cond).run s = .ok (val, s')) (same : act.home = home)
    (grows : s'.builder.Grows act.final) (here : act.Here s.builder m)
    (holds : EnvHolds act m.store.memory ctx s.scope env) :
    Simulates image depth (act.callers.length + fuel + 1) fuel m
      (allows (calls ctx.program fuel) polarity cond env) fun allowed m' => ∃ truth,
        allowed = permits polarity truth ∧ Gives image act s s' m val (.ofBool truth) m' := by
  obtain ⟨typed, s₁, lowers, tests⟩ := run_bind_ok.mp run
  obtain ⟨first, usable⟩ := lowerExpr_yields ready lowers
  obtain ⟨second, -⟩ := truth_yields first.ready usable tests
  refine (computed ready lowers (truth_solid core tests) same (second.grows.trans grows) here holds).bind ?_
  rintro datum m₁ - ⟨ty, gives⟩
  obtain ⟨n, m₂, reach, tested⟩ := truth_gives core gives.moves.here first.ready.inside ty gives.holds tests grows
  exact .step reach (.ok ⟨datum.isTrue, rfl, tested.after first.registers gives.moves⟩)

/-- After a nested block, statements go on in the block behind it, which is still empty. -/
theorem arm_meets (idle : s.builder.Idle past) (same : s.scope = scope) (flow : Flow)
    (m : Machine.State) (given : ArmGiven act ctx past scope flow m) :
    FlowGiven act ctx false (s.built (.position past)) flow m := by
  subst same
  cases flow with
  | next env => exact ⟨rfl, given.1.here idle, given.2⟩
  | leave res => exact given

theorem here_opens (opens : Opens params new s s') (here : act.Here s.builder m) :
    act.Here s'.builder m := by
  obtain ⟨running, block, full, found, there, point⟩ := here
  refine ⟨running, block, full, ?_, opens.current ▸ there, point⟩
  rw [opens.current, opens.same _ (Builder.block?_lt found)]
  exact found

theorem test_simulates (core : IsCore ctx.program)
    (computed : Computed image depth fuel home params ctx cond) (ready : Ready params s)
    {s₁ s₂ : State} (tests : (lowerCondition ctx cond).run s = .ok (val, s₁))
    (same : act.home = home) (grows : s₁.builder.Grows s₂.builder)
    (moves : ∀ {m}, act.Here s₁.builder m → act.Here s₂.builder m)
    (waits : s₂.builder.Open s₂.builder.current) {body past : Nat}
    (ends : s'.builder = s₂.builder.terminated (Polarity.terminator polarity val body past))
    (more : s'.builder.Grows act.final) (onward : s'.builder.Open body)
    (behind : s'.builder.Open past) (here : act.Here s.builder m)
    (holds : EnvHolds act m.store.memory ctx s.scope env) :
    Simulates image depth (act.callers.length + fuel + 1) fuel m
      (allows (calls ctx.program fuel) polarity cond env)
      fun allowed m' => ∃ m'', Reach image depth 1 m' m'' ∧
        act.Begins (if allowed then body else past) m'' ∧
        EnvHolds act m''.store.memory ctx s.scope env := by
  have tested : s₁.builder.Grows act.final := grows.trans ((Builder.grows_terminated waits).trans (ends ▸ more))
  refine (condition_simulates core computed ready tests same tested here holds).mono ?_
  rintro allowed m₁ - ⟨truth, rfl, gives⟩
  obtain ⟨block, found⟩ := exists_block onward more
  obtain ⟨block', found'⟩ := exists_block behind more
  obtain ⟨m₂, reach, begins, store⟩ := (moves gives.moves.here).branches (ends ▸ more) gives.holds found found'
  exact ⟨m₂, reach, begins, store ▸ holds.kept gives.moves.kept⟩

section
variable (core : IsCore ctx.program) (computed : Computed image depth fuel home params ctx cond)
  (each : ∀ stmt ∈ body, Performed image depth fuel home params ctx stmt)
  (posed : Posed home params ctx act s m env) (grows : s'.builder.Grows act.final)
include core computed each posed grows

theorem branch_simulates (run : (lowerBranch ctx polarity cond (lowerBlock ctx body)).run s = .ok (u, s')) :
    Simulates image depth (act.callers.length + fuel + 1) fuel m
      (do if ← allows (calls ctx.program fuel) polarity cond env then
            nested (execBlock (calls ctx.program fuel) fuel body) env
          else return .next env) (FlowGiven act ctx false s') := by
  obtain ⟨ready, kept, same, here, holds⟩ := posed
  obtain ⟨val, s₁, s₂, s₃, s₄, first, tests, ⟨emits, -⟩, opens, ends, closes, arm, rfl⟩ := lowerBranch_parts ready run
  have behind := closes.waits (.tail _ (.head _))
  obtain ⟨later, scope, meeting⟩ := closes.arm (by simp) (fun stmt _ => flows ctx stmt) kept behind.lt arm
  have last : s₄.builder.Grows act.final := (grows_positioned ..).trans grows
  have more : s₃.builder.Grows act.final := later.trans last
  obtain ⟨past, found⟩ := exists_block behind more
  refine (test_simulates core computed ready tests same opens.grows (here_opens opens) opens.ready.here ends more
    (closes.waits (.head _)) behind here holds).bind ?_
  rintro allowed m₁ - ⟨m₂, reach, begins, holds₂⟩
  rw [← closes.scope] at holds₂
  -- Both ways meet in the block behind, which is still empty.
  refine .step reach ?_
  cases allowed with
  | true =>
    exact (arm_simulates each closes (.head _) (kept.mono closes.grows) arm same last found begins holds₂).mono
      fun flow m' _ => arm_meets (meeting.idle (.head _)) scope flow m'
  | false => exact .ok (arm_meets (meeting.idle (.head _)) scope (.next env) m₂ ⟨begins, holds₂⟩)

theorem branchElse_simulates (each' : ∀ stmt ∈ otherwise, Performed image depth fuel home params ctx stmt)
    (run : (lowerBranchElse ctx polarity cond (lowerBlock ctx body) (lowerBlock ctx otherwise)).run s = .ok (u, s'))
    :
    Simulates image depth (act.callers.length + fuel + 1) fuel m
      (do if ← allows (calls ctx.program fuel) polarity cond env then
            nested (execBlock (calls ctx.program fuel) fuel body) env
          else nested (execBlock (calls ctx.program fuel) fuel otherwise) env) (FlowGiven act ctx false s') := by
  obtain ⟨ready, kept, same, here, holds⟩ := posed
  obtain ⟨val, s₁, s₂, s₃, s₄, s₅, first, tests, ⟨emits, -⟩, opens, ends, closes, arm, arm', rfl⟩ :=
    lowerBranchElse_parts ready run
  have behind := closes.waits (.tail _ (.tail _ (.head _)))
  obtain ⟨later, scope, middle⟩ := closes.arm (by simp) (fun stmt _ => flows ctx stmt) kept behind.lt arm
  obtain ⟨later', scope', meeting⟩ := middle.arm (by simp) (fun stmt _ => flows ctx stmt) kept
    (middle.waits (.tail _ (.head _))).lt arm'
  have last : s₅.builder.Grows act.final := (grows_positioned ..).trans grows
  have between : s₄.builder.Grows act.final := later'.trans last
  have more : s₃.builder.Grows act.final := later.trans between
  obtain ⟨past, found⟩ := exists_block behind more
  refine (test_simulates core computed ready tests same opens.grows (here_opens opens) opens.ready.here ends more
    (closes.waits (.head _)) (closes.waits (.tail _ (.head _))) here holds).bind ?_
  rintro allowed m₁ - ⟨m₂, reach, begins, holds₂⟩
  rw [← closes.scope] at holds₂
  refine .step reach ?_
  cases allowed with
  | true =>
    exact (arm_simulates each closes (.head _) (kept.mono closes.grows) arm same between found begins holds₂).mono
      fun flow m' _ => arm_meets (meeting.idle (.head _)) (scope'.trans scope) flow m'
  | false =>
    exact (arm_simulates each' middle (.head _) (kept.mono middle.grows) arm' same last found begins
      (scope.symm ▸ holds₂)).mono fun flow m' _ => arm_meets (meeting.idle (.head _)) scope' flow m'

omit core computed each posed grows in
/-- Turn after turn, from the start of the test. -/
theorem turns_simulate {body : Env → Except Stop Flow} (few : k ≤ fuel)
    (turn : ∀ {m env}, act.Begins first m → EnvHolds act m.store.memory ctx scope env → Simulates
      image depth bound fuel m (test env) fun allowed m' => ∃ m'', Reach image depth 1 m' m'' ∧
      EnvHolds act m''.store.memory ctx scope env ∧ if allowed then Simulates image depth bound fuel
      m'' (body env) (ArmGiven act ctx first scope) else act.Begins last m'')
    (begins : act.Begins first m) (holds : EnvHolds act m.store.memory ctx scope env) :
    Simulates image depth bound k m (turns test body k env) (ArmGiven act ctx last scope) := by
  induction k generalizing m env with
  | zero => exact .inr ⟨0, m, Nat.le_refl _, .here m⟩
  | succ k ih =>
    refine ((turn begins holds).weaken few).bind ?_
    rintro allowed m₁ - ⟨m₂, reach, holds₂, goes⟩
    rw [Nat.add_comm]
    cases allowed with
    | true =>
      refine .after reach ((goes.weaken (Nat.le_of_succ_le few)).bind ?_)
      rintro (env' | result) m₃ - given
      · exact ih (Nat.le_of_succ_le few) given.1 given.2
      · exact .ok given
    | false => exact .after reach (.ok ⟨goes, holds₂⟩)

theorem loop_simulates
    (run : (lowerLoop ctx polarity cond (lowerBlock ctx body)).run s = .ok (u, s')) :
    Simulates image depth (act.callers.length + fuel + 1) fuel m
      (turns (allows (calls ctx.program fuel) polarity cond)
        (nested (execBlock (calls ctx.program fuel) fuel body)) fuel env)
          (FlowGiven act ctx false s') := by
  obtain ⟨ready, kept, same, here, holds⟩ := posed
  obtain ⟨s₁, s₂, val, s₃, s₄, s₅, first, opens, jump, closes, start, tests, ⟨emits, -⟩, ends, tested, arm, rfl⟩ :=
    lowerLoop_parts ready run
  have entered := closes.drop (by simp) tested
  have small := Nat.lt_of_lt_of_le (closes.waits (.head _)).lt tested.grows.length_le
  obtain ⟨later, scope, meeting⟩ := entered.arm (by simp) (fun stmt _ => flows ctx stmt) kept small arm
  have last : s₅.builder.Grows act.final := (grows_positioned ..).trans grows
  have more : s₄.builder.Grows act.final := later.trans last
  have enters : s₂.builder.Grows act.final := tested.grows.trans more
  obtain ⟨head, atTest⟩ := exists_block (closes.waits (.head _)) enters
  obtain ⟨m₁, reach₁, begins₁, store₁⟩ := (here_opens opens here).jumps (jump ▸ enters) atTest
  refine .step reach₁ ?_
  refine (turns_simulate (Nat.le_refl fuel) (fun {m env} begins holds => ?_) begins₁ (store₁ ▸ holds)).mono
    fun flow m' _ => arm_meets (meeting.idle (.head _)) (scope.trans entered.scope) flow m'
  -- One turn: the test, and the body if it is allowed.
  have here := begins.here (closes.idle (.head _))
  refine (test_simulates core computed start tests same (.refl _) id emits.ready.here ends more
    (entered.waits (.head _))
    (entered.waits (.tail _ (.head _))) here (closes.scope.symm ▸ holds)).mono ?_
  rintro allowed m₂ - ⟨m₃, reach₃, begins₃, holds₃⟩
  have holds₃ : EnvHolds act m₃.store.memory ctx s.scope env := closes.scope ▸ holds₃
  refine ⟨m₃, reach₃, holds₃, ?_⟩
  cases allowed with
  | true =>
    rw [if_pos rfl, ← entered.scope]
    exact arm_simulates each entered (.head _) (kept.mono entered.grows) arm same last atTest begins₃
      (entered.scope.symm ▸ holds₃)
  | false => exact begins₃

end

/-- Code of every statement of the core does what it means, if the functions it calls do. -/
theorem stmt_performed (core : IsCore ctx.program)
    (fns : FunctionsRun image depth home ctx.program fuel) (stmt : Stmt) :
    isCoreStmt stmt → Performed image depth fuel home params ctx stmt := by
  induction stmt using Stmt.induct with
  | step stmt ih =>
  intro inCore s s' u act m env posed run grows
  have computed : ∀ expr, isCoreExpr expr → Computed image depth fuel home params ctx expr :=
    expr_computed core fns
  cases stmt with
  | declare line name ty =>
    rw [isCoreStmt, Option.isSome_iff_exists] at inCore
    obtain ⟨scalar, found⟩ := inCore
    obtain rfl := Scalar.ofType?_eq_some.mp found
    rw [execStmt, found]
    exact declare_simulates posed grows core run
  | define line name ty val =>
    rw [isCoreStmt, Bool.and_eq_true, Option.isSome_iff_exists] at inCore
    obtain ⟨⟨scalar, found⟩, inCore⟩ := inCore
    obtain rfl := Scalar.ofType?_eq_some.mp found
    exact define_simulates posed grows core (computed val inCore) run
  | assign line tgt val =>
    cases tgt with
    | name mark name => exact assign_simulates posed grows core (computed val inCore) run
    | _ => contradiction
  | call line val =>
    simp only [lowerStmt, run_bind_ok, run_pure_ok] at run
    obtain ⟨typed, _, lowers, -, rfl⟩ := run
    cases val with
    | call mark scope name args =>
      cases scope with
      | some _ => contradiction
      | none =>
        have each := areCoreExprs_mem (by simpa [isCoreStmt] using inCore)
        obtain ⟨ready, -, same, here, holds⟩ := posed
        obtain ⟨emits, -⟩ := lowerExpr_yields ready lowers
        rw [execStmt, ← bind_assoc]
        refine (call_simulates core fns (fun arg mem => computed arg (each arg mem)) ready lowers same grows here
          holds).bind ?_
        rintro (_ | datum) m' - given
        · exact .ok ⟨rfl, given.2.here, emits.scope ▸ holds.kept given.2.kept⟩
        · exact .ok ⟨rfl, given.2.moves.here, emits.scope ▸ holds.kept given.2.moves.kept⟩
    | _ => contradiction
  | leave line val =>
    refine leave_simulates posed grows core (fun expr found => computed expr ?_) run
    subst found
    exact inCore
  | branch line polarity cond body =>
    rw [isCoreStmt, Bool.and_eq_true] at inCore
    exact branch_simulates core (computed cond inCore.1) (fun inner mem => ih body (.head _) inner mem
      (areCoreStmts_mem inCore.2 inner mem)) posed grows run
  | branchElse line polarity cond body otherwise =>
    rw [isCoreStmt, Bool.and_eq_true, Bool.and_eq_true] at inCore
    exact branchElse_simulates core (computed cond inCore.1.1)
      (fun inner mem => ih body (.head _) inner mem (areCoreStmts_mem inCore.1.2 inner mem)) posed grows
      (fun inner mem => ih otherwise (.tail _ (.head _)) inner mem (areCoreStmts_mem inCore.2 inner mem)) run
  | loop line polarity cond body =>
    rw [isCoreStmt, Bool.and_eq_true] at inCore
    exact loop_simulates core (computed cond inCore.1) (fun inner mem => ih body (.head _) inner mem
      (areCoreStmts_mem inCore.2 inner mem)) posed grows run
  | method | delete => contradiction

end TernLang.Core
