import TernLang.Proofs.Lowering.Tables

/-! Statements are lowered to checked code. Their expressions stand among the variables of the
scope, and a nested block leaves the scope as it was. -/
namespace TernLang

namespace Variables

@[simp] theorem ofScope_child (scope : Scope) : ofScope scope.child = ofScope scope := rfl

theorem ofScope_withVariable (s : Lowering.State) (name : String) (var : Variable) :
    ofScope (s.withVariable name var).scope = (ofScope s.scope).declare name var.type := by
  funext other
  simp only [ofScope, declare, Lowering.State.withVariable, Scope.lookup?, List.findSome?_cons, Table.get?_insert]
  by_cases same : other = name
  · simp only [if_pos same]
    rfl
  · simp only [if_neg same]

end Variables

namespace Lowering

open Success

variable {prog : Program} {ctx : Context} {line : Nat} {s s' s'' : State} {u : Unit}

structure Moves (prog : Program) (s s' : State) : Prop where
  within : s.builder.function.Within s'.builder.function
  keeps : s.module.Keeps s'.module
  checked : Checked prog s'
  outer : s'.scope.outer = s.scope.outer

theorem Leads.moves (leads : Leads prog s s') : Moves prog s s' :=
  ⟨leads.within, leads.keeps, leads.checked, by rw [leads.scope]⟩

theorem Moves.trans (first : Moves prog s s') (second : Moves prog s' s'') : Moves prog s s'' where
  within := first.within.trans second.within
  keeps := first.keeps.trans second.keeps
  checked := second.checked
  outer := second.outer.trans first.outer

/-- Only types are looked at. -/
abbrev Context.typing (ctx : Context) : Aim := ⟨ctx, 0, False, True⟩

theorem Checked.able (checked : Checked ctx.program s) : ctx.typing.Able s :=
  ⟨nofun, fun _ => checked⟩

def ExitThere (ctx : Context) (s : State) : Prop :=
  ∀ exit, ctx.exit = some exit → exit.pointer.type = .pointer ∧ Carried s exit.pointer

theorem ExitThere.mono (there : ExitThere ctx s)
    (within : s.builder.function.Within s'.builder.function) (keeps : s.module.Keeps s'.module) :
    ExitThere ctx s' :=
  fun exit found => (there exit found).imp id (·.mono within keeps)

section
variable (checked : Checked prog s)
include checked

theorem withSlot_leads {lowered : IrType} (sized : s.module.isSized lowered)
    (carried : Carried s val) :
    Leads prog s (s.withSlot lowered val) ∧
      Carried (s.withSlot lowered val) (.register s.builder.nextRegister .pointer) := by
  obtain ⟨allocated, slot⟩ := alloca_leads checked sized
  have stored := store_leads allocated.checked (allocated.carried carried) slot rfl
  exact ⟨allocated.trans stored, stored.carried slot⟩

theorem withVariable_moves (name : String) (var : Variable)
    (located : Located prog s ⟨var.slot, var.type⟩) : Moves prog s (s.withVariable name var) where
  within := .refl _
  keeps := .refl _
  checked := by
    refine ⟨checked.equipped, checked.code, checked.current, ?_⟩
    intro other mem
    have old : Located prog s ⟨other.slot, other.type⟩ := by
      rcases mem_all_withVariable mem with rfl | mem
      · exact located
      · exact checked.scope other mem
    exact ⟨old.pointer, old.carried, old.resolves⟩
  outer := rfl

theorem branchOn_leads (carried : Carried s condition) (bool : condition.type = .bool)
    (run : (branchOn polarity condition body past).run s = .ok (u, s')) : Leads prog s s' := by
  cases polarity with
  | whenTrue | whenFalse =>
    obtain ⟨-, rfl⟩ := run
    exact terminate_leads checked ⟨by simpa [Ir.Terminator.operands] using carried, bool⟩

theorem lowerArm_leads (small : block < s.builder.function.blocks.length)
    (body : ∀ {left s₁}, Checked prog (s.nested block) →
      lowerBody.run (s.nested block) = .ok (left, s₁) → Moves prog (s.nested block) s₁)
    (run : (lowerArm block next lowerBody).run s = .ok (u, s')) :
    Leads prog s s' := by
  obtain ⟨left, s₁, lowered, ends⟩ := lowerArm_ok run
  have start : Checked prog (s.nested block) := by
    refine ⟨checked.equipped, checked.code, small, ?_⟩
    intro var mem
    have old := checked.scope var
      (by simpa [State.nested, Scope.all, Scope.child, Table.values, Table.empty] using mem)
    exact ⟨old.pointer, old.carried, old.resolves⟩
  have moves := body start lowered
  have scope : s₁.scope.parent = s.scope := child_parent s.scope moves.outer
  have inner : Leads prog s { s₁ with scope := s₁.scope.parent } := by
    refine ⟨moves.within, moves.keeps, ⟨moves.checked.equipped, moves.checked.code, moves.checked.current, ?_⟩, scope⟩
    rw [scope]
    intro var mem
    have old := checked.scope var mem
    exact ⟨old.pointer, old.carried.mono moves.within moves.keeps, old.resolves⟩
  rcases ends with ⟨-, rfl⟩ | ⟨-, rfl⟩
  · exact inner
  · exact inner.trans (branch_leads inner.checked next)

end

/-- A statement is lowered to checked code, and declares what the rules say. -/
def Steps (ctx : Context) (stmt : Stmt) : Prop :=
  ∀ {s s' : State} {u : Unit} {rest : List Stmt}, Checked ctx.program s → ExitThere ctx s →
    ctx.program.SolidBlock (.ofScope s.scope) (stmt :: rest) → (lowerStmt ctx stmt).run s = .ok (u, s') →
    Moves ctx.program s s' ∧ Variables.ofScope s'.scope = (Variables.ofScope s.scope).after stmt

theorem lowerBlock_moves (steps : ∀ stmt ∈ block, Steps ctx stmt) (checked : Checked ctx.program s)
    (kept : ExitThere ctx s) (solid : ctx.program.SolidBlock (.ofScope s.scope) block)
    (run : (lowerBlock ctx block).run s = .ok (left, s')) : Moves ctx.program s s' := by
  induction block generalizing s with
  | nil =>
    obtain ⟨-, rfl⟩ := run_pure_ok.mp run
    exact (Leads.refl checked).moves
  | cons stmt block ih =>
    obtain ⟨_, s₁, first, run⟩ := run_bind_ok.mp run
    obtain ⟨moves, declared⟩ := steps stmt List.mem_cons_self checked kept solid first
    split at run
    · simp only [run_pure_ok] at run
      exact run.2 ▸ moves
    · next stays =>
      -- What follows stands among the variables that this statement declares.
      have later := solid.later (by simpa using stays)
      rw [← declared] at later
      exact moves.trans (ih (fun other mem => steps other (List.mem_cons_of_mem _ mem)) moves.checked
        (kept.mono moves.within moves.keeps) later run)

theorem lowerBody_leads (steps : ∀ stmt ∈ block, Steps ctx stmt) (leads : Leads ctx.program s s')
    (kept : ExitThere ctx s) (small : idx < s'.builder.function.blocks.length)
    (solid : ctx.program.SolidBlock (.ofScope s.scope) block)
    (run : (lowerArm idx next (lowerBlock ctx block)).run s' = .ok (u, s'')) :
    Leads ctx.program s' s'' := by
  have scope : Variables.ofScope (s'.nested idx).scope = Variables.ofScope s.scope := by
    rw [State.nested, leads.scope, Variables.ofScope_child]
  refine lowerArm_leads leads.checked small ?_ run
  intro left s₁ start lowered
  exact lowerBlock_moves steps start (kept.mono leads.within leads.keeps) (scope.symm ▸ solid) lowered

theorem lowerCondition_leads (checked : Checked ctx.program s)
    (solid : ctx.program.SolidItems (.ofScope s.scope) expr)
    (run : (lowerCondition ctx expr).run s = .ok (val, s')) :
    Leads ctx.program s s' ∧ Carried s' val ∧ val.type = .bool := by
  obtain ⟨adds, operand, bool⟩ := Aim.lowerCondition_does checked.able (fun _ => solid) run
  exact ⟨adds.leads trivial, operand.fact trivial, bool trivial⟩

theorem lowerExpr_leads (checked : Checked ctx.program s) {typed : Typed}
    (solid : ctx.program.SolidItems (.ofScope s.scope) expr)
    (run : (lowerExpr ctx expr).run s = .ok (typed, s')) :
    Leads ctx.program s s' ∧ Valued ctx.program s' typed := by
  obtain ⟨adds, valued, -⟩ := (Aim.lowers ctx.typing expr).value checked.able (fun _ => solid) run
  exact ⟨adds.leads trivial, valued.fact trivial⟩

theorem Leads.small (leads : Leads prog s s') (small : idx < s.builder.function.blocks.length) :
    idx < s'.builder.function.blocks.length := Nat.lt_of_lt_of_le small leads.within.count

section
variable {polarity : Polarity} {condition : Expr} {body otherwise : List Stmt}
  (checked : Checked ctx.program s) (kept : ExitThere ctx s)
  (solidCondition : ctx.program.SolidItems (.ofScope s.scope) condition)
  (steps : ∀ stmt ∈ body, Steps ctx stmt)
  (solidBody : ctx.program.SolidBlock (.ofScope s.scope) body)
include checked kept solidCondition steps solidBody

theorem lowerBranch_leads
    (run : (lowerBranch ctx polarity condition (lowerBlock ctx body)).run s = .ok (u, s')) :
    Leads ctx.program s s' := by
  simp only [lowerBranch, run_bind_ok] at run
  obtain ⟨val, s₁, tested, inner, s₂, append, past, s₃, append', _, s₄, branches, _, s₅, arm, run⟩ := run
  obtain ⟨-, rfl⟩ := build_ok.mp run
  obtain ⟨first, carried, bool⟩ := lowerCondition_leads checked solidCondition tested
  obtain ⟨second, isInner⟩ := appendBlock_leads first.checked append
  obtain ⟨third, isPast⟩ := appendBlock_leads second.checked append'
  have fourth := branchOn_leads third.checked (third.carried (second.carried carried)) bool branches
  have tests := ((first.trans second).trans third).trans fourth
  have runs := lowerBody_leads steps tests kept (fourth.small (third.small isInner)) solidBody arm
  have moved := position_leads runs.checked (runs.small (fourth.small isPast))
  exact (tests.trans runs).trans moved

theorem lowerBranchElse_leads (steps' : ∀ stmt ∈ otherwise, Steps ctx stmt)
    (solidOther : ctx.program.SolidBlock (.ofScope s.scope) otherwise) (run : (lowerBranchElse ctx
      polarity condition (lowerBlock ctx body) (lowerBlock ctx otherwise)).run s = .ok (u, s')) :
    Leads ctx.program s s' := by
  simp only [lowerBranchElse, run_bind_ok] at run
  obtain ⟨val, s₁, tested, inner, s₂, append, other, s₃, append', past, s₄, append'', _, s₅, branches, _, s₆, arm,
    _, s₇, arm', run⟩ := run
  obtain ⟨-, rfl⟩ := build_ok.mp run
  obtain ⟨first, carried, bool⟩ := lowerCondition_leads checked solidCondition tested
  obtain ⟨second, isInner⟩ := appendBlock_leads first.checked append
  obtain ⟨third, isOther⟩ := appendBlock_leads second.checked append'
  obtain ⟨fourth, isPast⟩ := appendBlock_leads third.checked append''
  have opens := (second.trans third).trans fourth
  have fifth := branchOn_leads fourth.checked (opens.carried carried) bool branches
  have tests := (first.trans opens).trans fifth
  have runs := lowerBody_leads steps tests kept (fifth.small ((third.trans fourth).small isInner)) solidBody arm
  have runs' := lowerBody_leads steps' (tests.trans runs) kept (runs.small (fifth.small (fourth.small isOther)))
    solidOther arm'
  have moved := position_leads runs'.checked (runs'.small (runs.small (fifth.small isPast)))
  exact ((tests.trans runs).trans runs').trans moved

theorem lowerLoop_leads
    (run : (lowerLoop ctx polarity condition (lowerBlock ctx body)).run s = .ok (u, s')) :
    Leads ctx.program s s' := by
  simp only [lowerLoop, run_bind_ok] at run
  obtain ⟨test, s₁, append, inner, s₂, append', past, s₃, append'', _, s₄, jump, _, _, moved, val, s₅, tested,
    _, s₆, branches, _, s₇, arm, run⟩ := run
  obtain ⟨-, rfl⟩ := jump
  obtain ⟨-, rfl⟩ := moved
  obtain ⟨-, rfl⟩ := run
  obtain ⟨first, isTest⟩ := appendBlock_leads checked append
  obtain ⟨second, isInner⟩ := appendBlock_leads first.checked append'
  obtain ⟨third, isPast⟩ := appendBlock_leads second.checked append''
  have jumped := branch_leads third.checked test
  have moved := position_leads jumped.checked (jumped.small ((second.trans third).small isTest))
  have starts := ((first.trans second).trans third).trans (jumped.trans moved)
  obtain ⟨fourth, carried, bool⟩ := lowerCondition_leads starts.checked (starts.scope.symm ▸ solidCondition) tested
  have fifth := branchOn_leads fourth.checked carried bool branches
  have tests := (jumped.trans moved).trans (fourth.trans fifth)
  have before := ((first.trans second).trans third).trans tests
  have runs := lowerBody_leads steps before kept (tests.small (third.small isInner)) solidBody arm
  have moved := position_leads runs.checked (runs.small (tests.small isPast))
  exact (before.trans runs).trans moved

end

theorem lowerLeave_leads (checked : Checked ctx.program s) (kept : ExitThere ctx s)
    (solid : ∀ expr, val = some expr → ctx.program.SolidItems (.ofScope s.scope) expr)
    (run : (lowerLeave ctx line val).run s = .ok (u, s')) : Leads ctx.program s s' := by
  rcases lowerLeave_ok run with ⟨-, -, rfl⟩ | ⟨expr, exit, typed, s₁, _, rfl, found, lowered, joins, rfl⟩
  · exact branch_leads checked quitBlock
  · obtain ⟨leads, valued⟩ := lowerExpr_leads checked (solid expr rfl) lowered
    obtain ⟨pointer, carried⟩ := kept exit found
    have stored := store_leads leads.checked (valued.suits joins).carried (leads.carried carried) pointer
    exact (leads.trans stored).trans (branch_leads stored.checked quitBlock)

/-- Every statement is lowered to checked code. -/
theorem steps (ctx : Context) : ∀ stmt, Steps ctx stmt := by
  refine Stmt.induct fun stmt below => ?_
  intro s s' u rest checked kept solid run
  cases stmt with
  | declare line name ty =>
    obtain ⟨lowered, found, notVoid, -, rfl⟩ := lowerDeclare_ok run
    have lowers : ctx.program.Lowers ty lowered := ⟨_, found⟩
    have sized := checked.equipped.sized lowers notVoid
    obtain ⟨leads, slot⟩ := withSlot_leads checked sized (.zero sized)
    have moves := withVariable_moves leads.checked name ⟨_, ty⟩ ⟨rfl, slot, lowers.resolves⟩
    exact ⟨leads.moves.trans moves, Variables.ofScope_withVariable ..⟩
  | define line name ty val =>
    obtain ⟨lowered, typed, s₁, _, found, notVoid, evaluated, joins, -, rfl⟩ := lowerDefine_ok run
    have lowers : ctx.program.Lowers ty lowered := ⟨_, found⟩
    obtain ⟨first, valued⟩ := lowerExpr_leads checked (solid.part (by simp [Stmt.parts])) evaluated
    obtain ⟨leads, slot⟩ := withSlot_leads first.checked (first.checked.equipped.sized lowers notVoid)
      (valued.suits joins).carried
    have moves := withVariable_moves leads.checked name ⟨_, ty⟩ ⟨rfl, slot, lowers.resolves⟩
    refine ⟨(first.trans leads).moves.trans moves, ?_⟩
    rw [Variables.ofScope_withVariable, leads.scope, first.scope]
    rfl
  | leave line val =>
    have leads := lowerLeave_leads checked kept (fun expr same => solid.part (by simp [Stmt.parts, same])) run
    exact ⟨leads.moves, congrArg _ leads.scope⟩
  | assign line target val =>
    have leads := (Aim.lowerAssign_does checked.able (fun _ => solid.part (by simp [Stmt.parts]))
      (fun _ => solid.part (by simp [Stmt.parts])) run).1.leads trivial
    exact ⟨leads.moves, congrArg _ leads.scope⟩
  | call line val | method line val =>
    simp only [lowerStmt, run_bind_ok, run_pure_ok] at run
    obtain ⟨_, _, evaluated, -, rfl⟩ := run
    obtain ⟨leads, -⟩ := lowerExpr_leads checked (solid.part (by simp [Stmt.parts])) evaluated
    exact ⟨leads.moves, congrArg _ leads.scope⟩
  | branch line polarity condition body =>
    have leads := lowerBranch_leads checked kept (solid.part (by simp [Stmt.parts])) (below body (.head _))
      (solid.inner (by simp [Stmt.blocks])) run
    exact ⟨leads.moves, congrArg _ leads.scope⟩
  | branchElse line polarity condition body otherwise =>
    have leads := lowerBranchElse_leads checked kept (solid.part (by simp [Stmt.parts]))
      (below body (.head _)) (solid.inner (by simp [Stmt.blocks]))
      (below otherwise (.tail _ (.head _))) (solid.inner (by simp [Stmt.blocks])) run
    exact ⟨leads.moves, congrArg _ leads.scope⟩
  | loop line polarity condition body =>
    have leads := lowerLoop_leads checked kept (solid.part (by simp [Stmt.parts])) (below body (.head _))
      (solid.inner (by simp [Stmt.blocks])) run
    exact ⟨leads.moves, congrArg _ leads.scope⟩
  | delete line val =>
    have leads := (Aim.lowerDelete_does checked.able (fun _ => solid.part (by simp [Stmt.parts])) run).1.leads trivial
    exact ⟨leads.moves, congrArg _ leads.scope⟩

end Lowering
end TernLang
