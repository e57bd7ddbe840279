import TernLang.Proofs.Lowering.Inversion

/-! What the parts of an expression's lowering have done if they succeeded. -/
namespace TernLang.Lowering

open Success

variable {ctx : Context} {line : Nat} {s s' : State} {ty : TypeName}

theorem target?_eq_some {target : TypeName} (found : ty.target? = some target) :
    ty = .pointer target := by
  cases ty <;> cases found
  rfl

theorem sizeOfType_ok (run : (sizeOfType ctx line ty).run s = .ok (size, s')) :
    s' = s ∧ ∃ lowered, ctx.program.irType (ctx.location line) ty = .ok lowered ∧
      lowered ≠ .void := by
  simp only [sizeOfType, run_bind_ok, run_get_ok] at run
  obtain ⟨lowered, _, solid, _, _, ⟨rfl, rfl⟩, run⟩ := run
  obtain ⟨rfl, found, solid⟩ := solidType_ok solid
  split at run
  · simp only [run_pure_ok] at run
    exact ⟨run.2, lowered, found, solid⟩
  · exact (run_throw_ok.mp run).elim

theorem expectItems_ok {elem : TypeName} {items : List Typed}
    (run : (expectItems ctx line elem items).run s = .ok (u, s')) :
    s' = s ∧ ∀ item ∈ items, ∃ joined,
      ctx.program.joinInto (ctx.location line) item.type elem = .ok (some joined) := by
  induction items generalizing s with
  | nil => exact ⟨(run_pure_ok.mp run).2, by simp⟩
  | cons item items ih =>
    obtain ⟨_, _, first, rest⟩ := run_bind_ok.mp run
    obtain ⟨rfl, joined⟩ := expectInto_ok first
    obtain ⟨rfl, others⟩ := ih rest
    exact ⟨rfl, List.forall_mem_cons.mpr ⟨joined, others⟩⟩

theorem lowerOperation_ok {left right typed : Typed}
    (run : (lowerOperation ctx line op left right).run s = .ok (typed, s')) :
    ∃ ty operands, ctx.program.join (ctx.location line) left.type right.type = .ok (some ty) ∧
      ctx.program.classify (ctx.location line) ty = .ok operands ∧
      ((∃ predicate, comparison? operands op = some predicate ∧ op.isComparison ∧
          typed = ⟨.register s.builder.nextRegister .bool, .named "bool"⟩ ∧
          s' = s.built (.compare predicate left.value right.value)) ∨
       (∃ instr, arithmetic? operands op = some instr ∧ op.isComparison = false ∧
          typed = ⟨.register s.builder.nextRegister left.value.type, ty⟩ ∧
          s' = s.built (.binary instr left.value right.value))) := by
  simp only [lowerOperation, classify, run_bind_ok, run_lift_ok] at run
  obtain ⟨joined, _, ⟨joins, rfl⟩, run⟩ := run
  split at run
  · simp at run
  · next ty =>
    simp only [run_bind_ok, run_lift_ok] at run
    obtain ⟨operands, _, ⟨classified, rfl⟩, run⟩ := run
    refine ⟨ty, _, joins, classified, ?_⟩
    split at run
    · next comparison =>
      split at run
      · next predicate found =>
        obtain ⟨_, _, ⟨rfl, rfl⟩, rfl, rfl⟩ := run
        exact .inl ⟨predicate, found, comparison, rfl, rfl⟩
      · simp at run
    · next comparison =>
      split at run
      · next instr found =>
        obtain ⟨_, _, ⟨rfl, rfl⟩, rfl, rfl⟩ := run
        exact .inr ⟨instr, found, by simpa using comparison, rfl, rfl⟩
      · simp at run

end TernLang.Lowering
