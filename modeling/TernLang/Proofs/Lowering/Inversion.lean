import TernLang.Lowering
import TernLang.Proofs.Success

/-! What each part of lowering has done if it succeeded: the facts it checked, the value it gave
and the state it left. -/
namespace TernLang.Lowering

open Success

variable {ctx : Context} {line : Nat} {s s' : State}

theorem solidType_ok {ty : TypeName} {cause : TypeError} {lowered : IrType}
    (run : (solidType ctx line ty cause).run s = .ok (lowered, s')) :
    s' = s ∧ ctx.program.irType (ctx.location line) ty = .ok lowered ∧ lowered ≠ .void := by
  simp only [solidType, run_bind_ok, run_lift_ok] at run
  obtain ⟨_, _, ⟨found, rfl⟩, run⟩ := run
  split at run
  · simp at run
  · next solid =>
    obtain ⟨rfl, rfl⟩ := run_pure_ok.mp run
    exact ⟨rfl, found, solid⟩

variable {u : Unit} {name : String} {val slot : Ir.Value} {sig : Signature} {cls : Class}
  {items : List Ir.Value}

theorem expectInto_ok {found wanted : TypeName}
    (run : (expectInto ctx line found wanted destination).run s = .ok (u, s')) :
    s' = s ∧
      ∃ joined, ctx.program.joinInto (ctx.location line) found wanted = .ok (some joined) := by
  simp only [expectInto, run_bind_ok, run_lift_ok] at run
  obtain ⟨res, _, ⟨joins, rfl⟩, run⟩ := run
  cases res with
  | none => simp at run
  | some joined =>
    simp only [Option.isNone_some, Bool.false_eq_true, if_false, run_pure_ok] at run
    exact ⟨run.2, joined, joins⟩

theorem nameAddress_ok {addr : Typed} (run : (nameAddress ctx line name).run s = .ok (addr, s')) :
    s' = s ∧ ((∃ var, s.scope.lookup? name = some var ∧ addr = ⟨var.slot, var.type⟩) ∨
      s.scope.lookup? name = none ∧
        ∃ global, ctx.program.global? name = some global ∧ addr = ⟨.global name, global.type⟩) := by
  simp only [nameAddress, run_bind_ok, run_get_ok] at run
  obtain ⟨_, _, ⟨rfl, rfl⟩, run⟩ := run
  split at run
  · next var found =>
    simp only [run_pure_ok] at run
    exact ⟨run.2, .inl ⟨var, found, run.1⟩⟩
  · next missing =>
    split at run
    · next global found =>
      simp only [run_pure_ok] at run
      exact ⟨run.2, .inr ⟨missing, global, found, run.1⟩⟩
    · simp at run

theorem loadFrom_ok {addr typed : Typed} (run : (loadFrom ctx line addr).run s = .ok (typed, s')) :
    ∃ lowered, ctx.program.irType (ctx.location line) addr.type = .ok lowered ∧ lowered ≠ .void ∧
      typed = ⟨.register s.builder.nextRegister lowered, addr.type⟩ ∧
      s' = s.built (.load lowered addr.value) := by
  simp only [loadFrom, run_bind_ok, build_ok, run_pure_ok] at run
  obtain ⟨lowered, _, solid, _, _, ⟨rfl, rfl⟩, rfl, rfl⟩ := run
  obtain ⟨rfl, found, solid⟩ := solidType_ok solid
  exact ⟨lowered, found, solid, rfl, rfl⟩

theorem defineVariable_ok {ty : TypeName}
    (run : (defineVariable ctx line name slot ty ifTaken).run s = .ok (u, s')) :
    s.scope.hasHere name = false ∧
      s' = { s with scope := { s.scope with locals := s.scope.locals.insert name ⟨slot, ty⟩ } } :=
        by
  simp only [defineVariable, run_bind_ok, run_get_ok] at run
  obtain ⟨_, _, ⟨rfl, rfl⟩, run⟩ := run
  split at run
  · next scope defined =>
    simp only [run_modify_ok] at run
    simp only [Scope.define?] at defined
    split at defined
    · contradiction
    · next free =>
      cases defined
      exact ⟨by simpa using free, run⟩
  · simp at run

theorem routine_ok {ty : Ir.FunctionType} {found : Ir.Value × Ir.FunctionType}
    (run : (routine sym ty).run s = .ok (found, s')) :
    found = (.function sym, ((s.module.function? sym).map (·.type)).getD ty) ∧
      s' = { s with module := s.module.declare sym ty } := by
  simp only [routine, run_bind_ok, run_get_ok, run_modify_ok, run_pure_ok] at run
  obtain ⟨_, _, ⟨rfl, rfl⟩, _, _, rfl, run⟩ := run
  exact run

/-! Conversions. -/

theorem applyConversion_ok {tgt : IrType}
    (run : (applyConversion val tgt conv).run s = .ok (res, s')) :
    (conv = .keep ∧ res = val ∧ s' = s) ∨
    (∃ op, conv = .cast op ∧ res = .register s.builder.nextRegister tgt ∧
      s' = s.built (.cast op val tgt)) ∨
    (∃ predicate, conv = .test predicate ∧ res = .register s.builder.nextRegister .bool ∧
      s' = s.built (.compare predicate val (.zero val.type))) := by
  cases conv with
  | keep => exact .inl ⟨rfl, run_pure_ok.mp run⟩
  | cast op =>
    simp only [applyConversion, build_ok] at run
    exact .inr (.inl ⟨op, rfl, run⟩)
  | test predicate =>
    simp only [applyConversion, build_ok] at run
    exact .inr (.inr ⟨predicate, rfl, run⟩)

variable {typed : Typed} {args : List Typed}

theorem convert_ok {tgt : TypeName} (run : (convert ctx line typed tgt).run s = .ok (val, s')) :
    ∃ src into conv, ctx.program.classify (ctx.location line) typed.type = .ok src ∧
      ctx.program.classify (ctx.location line) tgt = .ok into ∧ conversion? src into = some conv ∧
      (applyConversion typed.value into.irType conv).run s = .ok (val, s') := by
  simp only [convert, classify, run_bind_ok, run_lift_ok] at run
  obtain ⟨src, _, ⟨first, rfl⟩, into, _, ⟨second, rfl⟩, run⟩ := run
  split at run
  · next conv found => exact ⟨_, _, conv, first, second, found, run⟩
  · simp at run

theorem promote_ok (run : (promote ctx line typed).run s = .ok (val, s')) :
    ∃ found conv tgt, ctx.program.classify (ctx.location line) typed.type = .ok found ∧
      promotion? found = some (conv, tgt) ∧
      (applyConversion typed.value tgt conv).run s = .ok (val, s') := by
  simp only [promote, classify, run_bind_ok, run_lift_ok] at run
  obtain ⟨found, _, ⟨classified, rfl⟩, run⟩ := run
  split at run
  · next conv tgt promotes => exact ⟨_, conv, tgt, classified, promotes, run⟩
  · simp at run

theorem truth_ok (run : (truth ctx line typed).run s = .ok (val, s')) :
    (ctx.program.condition (ctx.location line) typed.type = .ok .bool ∧ val = typed.value ∧
      s' = s) ∨
    (∃ kind, ctx.program.condition (ctx.location line) typed.type = .ok (.notZero kind) ∧
      val = .register s.builder.nextRegister .bool ∧
      s' = s.built (.compare .ne typed.value (.zero typed.value.type))) := by
  simp only [truth, run_bind_ok, run_lift_ok] at run
  obtain ⟨cond, _, ⟨tested, rfl⟩, run⟩ := run
  split at run
  · exact .inl ⟨tested, run_pure_ok.mp run⟩
  · next kind => exact .inr ⟨kind, tested, build_ok.mp run⟩

/-! Calls. -/

theorem emitCall_ok (run : (emitCall ctx line sig callee args).run s = .ok (typed, s')) :
    ∃ ty tail s₁, functionType ctx.program (ctx.location line) sig = .ok ty ∧
      (tailValues ctx line sig.variadic (args.drop sig.params.length)).run s = .ok (tail, s₁) ∧
      typed.type = sig.result ∧
      (build (.call callee ty ((args.take sig.params.length).map (·.value) ++ tail))).run s₁ =
        .ok (typed.value, s') := by
  simp only [emitCall, run_bind_ok, run_lift_ok, run_pure_ok] at run
  obtain ⟨ty, _, ⟨lowered, rfl⟩, tail, s₁, packed, _, _, called, rfl, rfl⟩ := run
  exact ⟨ty, tail, s₁, lowered, packed, rfl, called⟩

theorem variableType?_ok {found : Option TypeName} (run : (variableType? ctx name).run s = .ok (found, s')) :
    s' = s ∧ found = match s.scope.lookup? name with
      | some var => some var.type
      | none => (ctx.program.global? name).map (·.type) := by
  simp only [variableType?, run_bind_ok, run_get_ok] at run
  obtain ⟨_, s, ⟨rfl, rfl⟩, run⟩ := run
  cases there : s.scope.lookup? name <;>
  · simp only [there, run_pure_ok] at run
    exact run.symm

theorem functionVariable?_some (run : (functionVariable? ctx line name).run s = .ok (some (ptr, sig), s')) :
    ∃ addr loaded ty params res isStdcall variadic,
      (nameAddress ctx line name).run s = .ok (addr, s) ∧
      (loadFrom ctx line addr).run s = .ok (loaded, s') ∧ loaded.value = ptr ∧
      addr.type = ty ∧
      ctx.program.resolve (ctx.location line) ty = .ok (.function params res isStdcall variadic) ∧
      sig = { name, symbol := name, params, result := res, isStdcall,
                    variadic := if variadic then .foreign else .none } := by
  simp only [functionVariable?, run_bind_ok] at run
  obtain ⟨type?, _, named, run⟩ := run
  obtain ⟨rfl, same⟩ := variableType?_ok named
  split at run
  · simp at run
  · next ty =>
    simp only [resolve, run_bind_ok, run_lift_ok] at run
    obtain ⟨resolved, _, ⟨resolves, rfl⟩, run⟩ := run
    split at run
    · next params res isStdcall variadic =>
      simp only [run_bind_ok, run_pure_ok, Option.some.injEq] at run
      obtain ⟨addr, _, addressed, loaded, _, loads, ⟨rfl, rfl⟩, rfl⟩ := run
      obtain ⟨rfl, kind⟩ := nameAddress_ok addressed
      refine ⟨addr, loaded, ty, params, res, isStdcall, variadic, addressed, loads, rfl, ?_, resolves, rfl⟩
      rcases kind with ⟨var, found, rfl⟩ | ⟨missing, global, found, rfl⟩
      · simpa [found] using same.symm
      · simpa [missing, found] using same.symm
    · simp at run

theorem expectArguments_ok {found params : List TypeName}
    (run : (expectArguments ctx line name found params).run s = .ok (u, s')) :
    s' = s ∧ ∀ pair ∈ found.zip params, ∃ joined,
      ctx.program.joinInto (ctx.location line) pair.1 pair.2 = .ok (some joined) := by
  induction found generalizing params s with
  | nil => exact ⟨(run_pure_ok.mp run).2, by simp⟩
  | cons ty rest ih =>
    cases params with
    | nil => exact ⟨(run_pure_ok.mp run).2, by simp⟩
    | cons param params =>
      obtain ⟨_, _, first, rest⟩ := run_bind_ok.mp run
      obtain ⟨rfl, joined⟩ := expectInto_ok first
      obtain ⟨rfl, others⟩ := ih rest
      refine ⟨rfl, fun pair mem => ?_⟩
      rcases List.mem_cons.mp (List.zip_cons_cons ▸ mem) with rfl | mem
      · exact joined
      · exact others pair mem

theorem callVariable_ok (run : (callVariable ctx line name ptr sig args).run s = .ok (typed, s')) :
    (if sig.isVariadic then args.length ≥ sig.params.length
      else args.length = sig.params.length) ∧
    (∀ pair ∈ (args.map (·.type)).zip sig.params, ∃ joined,
      ctx.program.joinInto (ctx.location line) pair.1 pair.2 = .ok (some joined)) ∧
    (emitCall ctx line sig ptr args).run s = .ok (typed, s') := by
  by_cases fits : if sig.isVariadic then args.length ≥ sig.params.length
      else args.length = sig.params.length
  · simp only [callVariable, fits, decide_true, Bool.not_true, Bool.false_eq_true, if_false, run_bind_ok] at run
    obtain ⟨_, _, checked, called⟩ := run
    obtain ⟨rfl, joins⟩ := expectArguments_ok checked
    exact ⟨fits, joins, called⟩
  · simp [callVariable, fits] at run

theorem callNamed_ok (run : (callNamed ctx line name args).run s = .ok (typed, s')) :
    (∃ sig,
      ctx.program.findCallable (ctx.location line) name (args.map (·.type)) = .ok (some sig) ∧
      (emitCall ctx line sig (.function sig.symbol) args).run s = .ok (typed, s')) ∨
    (ctx.program.findCallable (ctx.location line) name (args.map (·.type)) = .ok none ∧
      ∃ ptr sig s₁, (functionVariable? ctx line name).run s = .ok (some (ptr, sig), s₁) ∧
        (callVariable ctx line name ptr sig args).run s₁ = .ok (typed, s')) := by
  simp only [callNamed, run_bind_ok, run_lift_ok] at run
  obtain ⟨found, _, ⟨chosen, rfl⟩, run⟩ := run
  split at run
  · next sig => exact .inl ⟨sig, chosen, run⟩
  · simp only [run_bind_ok] at run
    obtain ⟨holder, s₁, held, run⟩ := run
    split at run
    · next ptr sig => exact .inr ⟨chosen, ptr, sig, s₁, held, run⟩
    · simp at run

theorem expectVisible_ok (run : (expectVisible ctx line cls sig).run s = .ok (u, s')) : s' = s := by
  simp only [expectVisible] at run
  split at run
  · split at run
    · simp at run
    · exact (run_pure_ok.mp run).2
  · exact (run_pure_ok.mp run).2

theorem staticClass_ok (run : (staticClass ctx line name).run s = .ok (cls, s')) :
    s' = s ∧ ctx.program.class? name = some cls := by
  simp only [staticClass] at run
  split at run
  · next found =>
    obtain ⟨rfl, rfl⟩ := run_pure_ok.mp run
    exact ⟨rfl, found⟩
  · simp at run

theorem objectClass_ok {object : Typed}
    (run : (objectClass ctx line object).run s = .ok (cls, s')) :
    s' = s ∧ ∃ name, ctx.program.resolve (ctx.location line) object.type = .ok (.named name) ∧
      ctx.program.class? name = some cls := by
  simp only [objectClass, resolve, run_bind_ok, run_lift_ok] at run
  obtain ⟨resolved, _, ⟨resolves, rfl⟩, run⟩ := run
  split at run
  · next found =>
    obtain ⟨rfl, rfl⟩ := run_pure_ok.mp run
    obtain ⟨name, bare, found⟩ := Option.bind_eq_some_iff.mp found
    refine ⟨rfl, name, ?_, found⟩
    cases resolved <;> simp_all [TypeName.bareName?]
  · simp at run

end TernLang.Lowering
