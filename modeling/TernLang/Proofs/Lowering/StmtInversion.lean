import TernLang.Proofs.Lowering.ExprInversion

/-! What the lowering of a statement has done if it succeeded. -/
namespace TernLang.Lowering

open Success

def State.withVariable (s : State) (name : String) (var : Variable) : State :=
  { s with scope := { s.scope with locals := s.scope.locals.insert name var } }

def State.withSlot (s : State) (lowered : IrType) (val : Ir.Value) : State :=
  (s.built (.alloca lowered)).built (.store val (.register s.builder.nextRegister .pointer))

variable {ctx : Context} {line : Nat} {s s' : State} {u : Unit} {val : Expr}

theorem lowerDeclare_ok {ty : TypeName}
    (run : (lowerDeclare ctx line name ty).run s = .ok (u, s')) :
    ∃ lowered, ctx.program.irType (ctx.location line) ty = .ok lowered ∧ lowered ≠ .void ∧
      s.scope.hasHere name = false ∧
      s' = (s.withSlot lowered (.zero lowered)).withVariable name
        ⟨.register s.builder.nextRegister .pointer, ty⟩ := by
  simp only [lowerDeclare, run_bind_ok, build_ok] at run
  obtain ⟨lowered, _, solid, _, _, ⟨rfl, rfl⟩, _, _, ⟨-, rfl⟩, defined⟩ := run
  obtain ⟨rfl, found, solid⟩ := solidType_ok solid
  obtain ⟨free, rfl⟩ := defineVariable_ok defined
  exact ⟨lowered, found, solid, free, rfl⟩

theorem lowerDefine_ok {ty : TypeName}
    (run : (lowerDefine ctx line name ty val).run s = .ok (u, s')) :
    ∃ lowered typed s₁ joined, ctx.program.irType (ctx.location line) ty = .ok lowered ∧
      lowered ≠ .void ∧
      (lowerExpr ctx val).run s = .ok (typed, s₁) ∧
      ctx.program.joinInto (ctx.location line) typed.type ty = .ok (some joined) ∧
      s₁.scope.hasHere name = false ∧
      s' = (s₁.withSlot lowered typed.value).withVariable name
        ⟨.register s₁.builder.nextRegister .pointer, ty⟩ := by
  simp only [lowerDefine, run_bind_ok, build_ok] at run
  obtain ⟨lowered, _, solid, typed, s₁, lowers, _, _, expects, _, _, ⟨rfl, rfl⟩, _, _, ⟨-, rfl⟩, defined⟩ := run
  obtain ⟨rfl, found, solid⟩ := solidType_ok solid
  obtain ⟨rfl, joined, joins⟩ := expectInto_ok expects
  obtain ⟨free, rfl⟩ := defineVariable_ok defined
  exact ⟨lowered, typed, _, joined, found, solid, lowers, joins, free, rfl⟩

theorem lowerLeave_ok {val : Option Expr} (run : (lowerLeave ctx line val).run s = .ok (u, s')) :
    (val = none ∧ ctx.exit = none ∧ s' = s.built (.branch quitBlock)) ∨
    ∃ expr exit typed s₁ joined, val = some expr ∧ ctx.exit = some exit ∧
      (lowerExpr ctx expr).run s = .ok (typed, s₁) ∧
      ctx.program.joinInto (ctx.location line) typed.type ctx.function.result = .ok (some joined) ∧
      s' = (s₁.built (.store typed.value exit.pointer)).built (.branch quitBlock) := by
  simp only [lowerLeave] at run
  split at run
  · next expr exit wanted =>
    simp only [run_bind_ok, build_ok] at run
    obtain ⟨typed, s₁, lowers, _, _, expects, _, _, ⟨-, rfl⟩, -, rfl⟩ := run
    obtain ⟨rfl, joined, joins⟩ := expectInto_ok expects
    exact .inr ⟨expr, exit, typed, _, joined, rfl, wanted, lowers, joins, rfl⟩
  · next none =>
    obtain ⟨-, rfl⟩ := build_ok.mp run
    exact .inl ⟨rfl, none, rfl⟩
  · simp at run
  · simp at run

theorem lowerAssign_ok (run : (lowerAssign ctx line target val).run s = .ok (u, s')) :
    ∃ addr s₁ typed s₂ joined, (lowerAddress ctx target).run s = .ok (addr, s₁) ∧
      (lowerExpr ctx val).run s₁ = .ok (typed, s₂) ∧
      ctx.program.joinInto (ctx.location line) typed.type addr.type = .ok (some joined) ∧
      s' = s₂.built (.store typed.value addr.value) := by
  simp only [lowerAssign, run_bind_ok, build_ok] at run
  obtain ⟨addr, s₁, addressed, typed, s₂, lowers, _, _, expects, -, rfl⟩ := run
  obtain ⟨rfl, joined, joins⟩ := expectInto_ok expects
  exact ⟨addr, s₁, typed, _, joined, addressed, lowers, joins, rfl⟩

end TernLang.Lowering
