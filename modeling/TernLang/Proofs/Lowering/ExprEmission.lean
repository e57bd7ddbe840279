import TernLang.Proofs.Lowering.CallEmission
import TernLang.Proofs.Lowering.ExprInversion

/-! Every expression and every address is lowered to code in the current block. Where types are
looked at, the code is checked, and values carry the lowered types of the types that the rules give
them. -/
namespace TernLang.Lowering

open List
open Ir (Instruction)
open Success

variable {prog : Program} {line : Nat} {s s' : State} {op : BinaryOp}

/-- Aggregates of a type are those that values of the other type are or point to. -/
def Follows (prog : Program) (ty base : TypeName) : Prop :=
  ∀ aggregate, prog.Resolves base aggregate → prog.Reaches ty aggregate

theorem lowers_of_solid {types : List TypeName} {lowered : List IrType}
    (solid : Forall₂ (Solid prog loc) types lowered) :
    ∀ ty ∈ types, ∃ found, prog.Lowers ty found := by
  intro ty mem
  obtain ⟨found, -, lowers, -⟩ := exists_of_forall₂ solid ty mem
  exact ⟨found, loc, lowers⟩

def HasMember (prog : Program) (ty : TypeName) (member : String) (found : TypeName) : Prop :=
  ∀ (vars : Variables) (mark : Mark) (val : Expr), prog.HasType vars val ty →
    prog.HasType vars (.member mark val member) found

theorem lowers_pointerType (declared : Declared prog s.module sig) :
    prog.Lowers sig.pointerType .pointer := by
  obtain ⟨loc, ty, typed⟩ := declared.type
  obtain ⟨params, res, -, -⟩ := functionType_ok typed
  have each : ∀ ty ∈ sig.declaredParams, ∃ resolved, prog.resolve loc ty = .ok resolved := by
    intro ty mem
    obtain ⟨_, lowers⟩ := lowers_of_solid params ty mem
    obtain ⟨resolved, resolves⟩ := lowers.resolves
    exact ⟨resolved, resolves.resolve loc⟩
  obtain ⟨resolvedParams, first⟩ := exists_mapM each
  obtain ⟨resolvedResult, second⟩ := Program.Lowers.resolves ⟨loc, res⟩
  have resolves : prog.Resolves sig.pointerType
      (.function resolvedParams resolvedResult sig.isStdcall (sig.variadic == .foreign)) :=
    ⟨loc, Program.resolve_function.mpr ⟨_, _, first, second.resolve loc, rfl⟩⟩
  exact resolves.lowers_address rfl

theorem comparison?_takes {operands : TypeClass} (usual : operands.Usual)
    (found : comparison? operands op = some predicate) : predicate.takes operands.irType := by
  cases operands with
  | integer bits signed =>
    cases op <;> cases signed <;> simp only [comparison?, Option.some.injEq,
      reduceCtorEq] at found <;> subst found <;> rfl
  | float ty =>
    cases op <;> simp only [comparison?, Option.some.injEq, reduceCtorEq] at found <;> subst found <;> exact usual
  | bool | pointer =>
    cases op <;> simp only [comparison?, Option.some.injEq, reduceCtorEq] at found <;> subst found <;> rfl
  | void | slice | aggregate => simp [comparison?] at found

theorem arithmetic?_takes {operands : TypeClass} (usual : operands.Usual)
    (found : arithmetic? operands op = some instr) : instr.takes operands.irType := by
  cases operands with
  | integer bits signed =>
    cases op <;> cases signed <;> simp only [arithmetic?, Option.some.injEq,
      reduceCtorEq] at found <;> subst found <;> rfl
  | float ty =>
    cases op <;> simp only [arithmetic?, Option.some.injEq, reduceCtorEq] at found <;> subst found <;> exact usual
  | void | bool | pointer | slice | aggregate => simp [arithmetic?] at found

namespace Aim

variable {aim : Aim} {typed addr base : Typed}

section
variable (able : aim.Able s)
include able

theorem lowerLiteral_does (literal : Literal) :
    aim.Does s (lowerLiteral literal) fun typed s' => aim.Value s' typed ∧
      typed.type = literal.type := by
  have plain := fun typed => (able.checked typed).equipped.plain.lowers
  cases literal with
  | string text =>
    intro typed s' run
    obtain ⟨rfl, rfl⟩ := Prod.mk.inj (run_modifyGet_ok.mp run)
    refine ⟨withModule_adds able (.addString ..) fun typed => (able.checked typed).equipped.addString text,
      ⟨fun _ => trivial, fun typed => ?_⟩, rfl⟩
    obtain ⟨_, resolves⟩ := (plain typed (.integer .ubyte)).resolves
    exact Suits.valued ⟨resolves.pointer.lowers_address rfl, rfl, rfl, by simp⟩
  | bool val => exact .pure able ⟨Has.valued (.int ..) fun typed => plain typed .bool, rfl⟩
  | integer kind val => exact .pure able ⟨Has.valued (.int ..) fun typed => plain typed (.integer kind), rfl⟩
  | half val => exact .pure able ⟨.valued ⟨fun _ => trivial, fun _ => ⟨rfl, rfl⟩⟩ fun typed => plain typed .half, rfl⟩
  | float val =>
    exact .pure able
      ⟨.valued ⟨fun _ => trivial, fun _ => ⟨rfl, rfl⟩⟩ fun typed => plain typed .float, rfl⟩
  | double val =>
    exact .pure able
      ⟨.valued ⟨fun _ => trivial, fun _ => ⟨rfl, rfl⟩⟩ fun typed => plain typed .double, rfl⟩
  | null => exact .pure able ⟨.valued ⟨fun _ => trivial, fun _ => ⟨rfl, rfl⟩⟩ fun typed => plain typed .pointer, rfl⟩

omit able in
theorem Has.target {target : TypeName} (valued : aim.Value s typed)
    (resolves : aim.ctx.program.Resolves typed.type (.pointer target)) :
    aim.Address s ⟨typed.value, target⟩ := by
  refine ⟨valued.usable, fun checks => ?_⟩
  obtain ⟨same, carried⟩ := (valued.fact checks).pointer resolves rfl
  exact ⟨same, carried, target, resolves.target⟩

theorem targetAddress_does (valued : aim.Value s typed) :
    aim.Does s (targetAddress aim.ctx line typed) fun addr s' =>
      aim.Address s' addr ∧ aim.ctx.program.Resolves typed.type (.pointer addr.type) := by
  refine .lift fun resolved resolves => ?_
  split
  · next target found =>
    obtain rfl := target?_eq_some found
    exact .pure able ⟨valued.target ⟨_, resolves⟩, _, resolves⟩
  · exact .fail

theorem elementAddress_does {lowerIndex : Lower Typed} (valued : aim.Value s base)
    (idx : ∀ {s₁}, aim.Adds s s₁ → aim.Does s₁ lowerIndex fun typed s₂ => aim.Value s₂ typed) :
    aim.Does s (elementAddress aim.ctx line base lowerIndex) fun addr s' => aim.Address s' addr ∧
      (aim.ctx.program.Resolves base.type (.pointer addr.type) ∨
        aim.ctx.program.Resolves base.type (.array addr.type)) := by
  refine .lift fun resolved resolves => ?_
  extract_lets rest
  have rests {ptr : Ir.Value} {elem : TypeName} {s₁ : State} (adds : aim.Adds s s₁)
      (pointed : aim.Operand s₁ ptr) (same : aim.typed → ptr.type = .pointer) :
      aim.Does s₁ (rest (ptr, elem)) fun addr s' => aim.Address s' addr ∧ addr.type = elem := by
    refine (idx adds).bind fun off s₂ first counted => (widenIndex_does first.able counted).bind ?_
    rintro word s₃ second ⟨widened, wide⟩
    refine .look solidType_ok ?_
    rintro lowered ⟨found, solid⟩
    have lowers : aim.ctx.program.Lowers elem lowered := ⟨_, found⟩
    refine (emit_does second.able (.elementPtr · lowered ptr [word]) (fun _ => ⟨rfl, rfl, rfl⟩) ?_
      fun typed => ?_).bind ?_
    · simp only [Instruction.operands, forall_mem_cons]
      exact ⟨second.operand (first.operand pointed), widened, by simp⟩
    · exact ⟨rfl, (second.able.checked typed).equipped.sized lowers solid, same typed,
        by simp [wide typed, IrType.i64, IrType.isInteger]⟩
    · rintro val s₄ third ⟨there, same⟩
      exact .pure third.able ⟨⟨there.usable, fun typed => ⟨same, there.fact typed, lowers.resolves⟩⟩, rfl⟩
  split
  · next elem =>
    have target := valued.target ⟨_, resolves⟩
    refine (rests (.refl able) target.operand fun typed => (target.fact typed).pointer).mono ?_
    rintro addr s' _ ⟨located, rfl⟩
    exact ⟨located, .inl ⟨_, resolves⟩⟩
  · next elem =>
    have slice : aim.typed →
      base.value.type = .slice := fun typed => (valued.fact typed).lowers.eq_slice ⟨_, resolves⟩
    refine (emit_does able (.extractValue · .pointer base.value 0) (fun _ => ⟨rfl, rfl, rfl⟩) ?_
      fun typed => ?_).bind ?_
    · simpa [Instruction.operands] using
        ⟨valued.usable, fun typed => (valued.fact typed).carried (by rw [slice typed]; decide)⟩
    · exact ⟨rfl, by rw [Instruction.Fits, slice typed]; rfl⟩
    · rintro ptr s₁ first ⟨pointed, same⟩
      refine (rests first pointed fun _ => same).mono ?_
      rintro addr s' _ ⟨located, rfl⟩
      exact ⟨located, .inr ⟨_, resolves⟩⟩
  · exact .fail

theorem followAddress_does (located : aim.Address s addr) :
    aim.Does s (followAddress aim.ctx line addr) fun base s' =>
      aim.Address s' base ∧ Follows aim.ctx.program addr.type base.type := by
  refine .lift fun resolved resolves => ?_
  split
  · next target found =>
    obtain rfl := target?_eq_some found
    have resolves : aim.ctx.program.Resolves addr.type (.pointer target) := ⟨_, resolves⟩
    refine (emit_does able (.load · .pointer addr.value) (fun _ => ⟨rfl, rfl, rfl⟩)
      (by simpa [Instruction.operands] using located.operand) fun typed =>
      ⟨rfl, rfl, (located.fact typed).pointer⟩).bind ?_
    rintro val s' adds ⟨operand, same⟩
    exact .pure adds.able ⟨⟨operand.usable, fun typed => ⟨same, operand.fact typed, target, resolves.target⟩⟩,
      fun _ inner => .inr ⟨target, resolves, inner⟩⟩
  · exact .pure able ⟨located, fun _ resolves => .inl resolves⟩

theorem spillValue_does (valued : aim.Value s typed) :
    aim.Does s (spillValue aim.ctx line typed) fun base s' =>
      aim.Address s' base ∧ Follows aim.ctx.program typed.type base.type := by
  refine .lift fun resolved resolves => ?_
  split
  · next target found =>
    obtain rfl := target?_eq_some found
    have resolves : aim.ctx.program.Resolves typed.type (.pointer target) := ⟨_, resolves⟩
    exact .pure able ⟨valued.target resolves, fun _ inner => .inr ⟨target, resolves, inner⟩⟩
  · refine .look solidType_ok ?_
    rintro lowered ⟨found, solid⟩
    have lowers : aim.ctx.program.Lowers typed.type lowered := ⟨_, found⟩
    refine (alloca_does able fun checks => (able.checked checks).equipped.sized lowers solid).bind ?_
    rintro slot s₁ allocated ⟨pointed, same⟩
    have operand : aim.Operand s typed.value := ⟨valued.usable, fun checks =>
      (valued.fact checks).carried ((valued.fact checks).lowers.unique lowers ▸ solid)⟩
    refine (store_does allocated.able (allocated.operand operand) pointed fun _ => same).bind ?_
    rintro _ s₂ stored -
    exact .pure stored.able ⟨⟨(stored.operand pointed).usable,
      fun typed => ⟨same, (stored.operand pointed).fact typed, lowers.resolves⟩⟩, fun _ resolves => .inl resolves⟩

theorem memberOf_look {base : TypeName} {found : Nat × TypeName}
    (run : (memberOf aim.ctx line base owner member).run s = .ok (found, s')) :
    s' = s ∧ (aim.typed → s.module.isSized (.struct owner) ∧
      ∃ lowered, aim.ctx.program.Lowers found.2 lowered) ∧
      ∀ ty, aim.ctx.program.Reaches ty (.named owner) →
        HasMember aim.ctx.program ty member found.2 := by
  simp only [memberOf] at run
  split at run
  · next struct there =>
    split at run
    · next idx field _ has =>
      obtain ⟨rfl, rfl⟩ := run_pure_ok.mp run
      refine ⟨rfl, fun typed => ?_, fun ty reaches vars mark val typed => .member mark typed reaches there has⟩
      have equipped := (able.checked typed).equipped
      obtain ⟨_, solid, -⟩ := equipped.structs.structures struct (mem_of_find?_eq_some there)
      exact ⟨equipped.aggregate (.inl (by simp [there])),
        lowers_of_solid (memberTypes_ok solid) _ (mem_map_of_mem (mem_of_find?_eq_some has))⟩
    · simp at run
  · next other =>
    split at run
    · simp at run
    · next cls there =>
      split at run
      · next idx field _ has =>
        split at run
        · simp at run
        · obtain ⟨rfl, rfl⟩ := run_pure_ok.mp run
          refine ⟨rfl, fun typed => ?_,
            fun ty reaches vars mark val typed => .field mark typed reaches other there has⟩
          have equipped := (able.checked typed).equipped
          obtain ⟨_, solid, -⟩ := equipped.structs.classes cls (mem_of_find?_eq_some there)
          have mem : ⟨field.name, field.type⟩ ∈ instanceMembers cls := mem_map_of_mem (mem_of_find?_eq_some has)
          exact ⟨equipped.aggregate (.inr (by simp [there])),
            lowers_of_solid (memberTypes_ok solid) _ (mem_map_of_mem (f := (·.type)) mem)⟩
      · simp at run

theorem memberAddress_does (located : aim.Address s base) :
    aim.Does s (memberAddress aim.ctx line base member) fun addr s' => aim.Address s' addr ∧
      ∀ ty, Follows aim.ctx.program ty base.type →
        HasMember aim.ctx.program ty member addr.type := by
  have places {ty : IrType} {found : TypeName} (idx : Nat) (sized : aim.typed → s.module.isSized ty)
      (resolves : aim.typed → ∃ resolved, aim.ctx.program.Resolves found resolved) :
      aim.Does s (do return ⟨← build (.fieldPtr ty base.value idx), found⟩) fun addr s' =>
        aim.Address s' addr ∧ addr.type = found := by
    refine (emit_does able (.elementPtr · ty base.value [.int 32 0, .int 32 idx.toUInt64]) (fun _ => ⟨rfl, rfl, rfl⟩)
      ?_ fun typed => ⟨rfl, sized typed,
        (located.fact typed).pointer, by simp [Ir.Value.int, IrType.isInteger]⟩).bind ?_
    · simp only [Instruction.operands, forall_mem_cons]
      exact ⟨located.operand, .int .., .int .., by simp⟩
    · rintro val s' adds ⟨pointed, same⟩
      exact .pure adds.able ⟨⟨pointed.usable, fun typed => ⟨same, pointed.fact typed, resolves typed⟩⟩, rfl⟩
  refine .lift fun resolved resolves => ?_
  split
  · next elem =>
    split
    · next named =>
      refine (places 1 (fun _ => rfl) fun typed =>
        ((able.checked typed).equipped.plain.lowers .usize).resolves).mono ?_
      rintro addr s' _ ⟨located, same⟩
      refine ⟨located, fun ty follows vars mark val typed => ?_⟩
      rw [same, named]
      exact .length mark typed (follows _ ⟨_, resolves⟩)
    · exact .fail
  · next owner =>
    refine .look (memberOf_look able) ?_
    rintro ⟨idx, found⟩ ⟨there, rule⟩
    refine (places idx (fun typed => (there typed).1) fun typed => ?_).mono ?_
    · obtain ⟨-, _, lowers⟩ := there typed
      exact lowers.resolves
    · rintro addr s' _ ⟨located, rfl⟩
      exact ⟨located, fun ty follows => rule ty (follows _ ⟨_, resolves⟩)⟩
  · exact .fail

theorem staticAddress_does :
    aim.Does s (staticAddress aim.ctx line scope field) fun addr s' => aim.Address s' addr ∧
      ∀ (vars : Variables) (mark : Mark),
        aim.ctx.program.HasType vars (.qualified mark scope field) addr.type := by
  unfold staticAddress
  split
  · exact .fail
  · next cls there =>
    split
    · exact .fail
    · next found has =>
      split
      · exact .fail
      · refine .pure able ⟨⟨fun _ => trivial, fun typed => ?_⟩, fun vars mark => .static mark there has⟩
        obtain ⟨isStatic, named⟩ : found.isStatic ∧ found.name = field := by simpa using find?_some has
        have mem := mem_storages_static (mem_of_find?_eq_some there) (mem_of_find?_eq_some has) isStatic
        obtain ⟨placed, _, lowers⟩ := (able.checked typed).equipped.storages _ mem
        refine ⟨rfl, ⟨rfl, rfl, ?_⟩, lowers.resolves⟩
        rw [← named]
        exact placed

theorem lowerQualified_does :
    aim.Does s (lowerQualified aim.ctx line scope name) fun typed s' => aim.Value s' typed ∧
      ∀ (vars : Variables) (mark : Mark),
        aim.ctx.program.HasType vars (.qualified mark scope name) typed.type := by
  unfold lowerQualified
  split
  · refine (staticAddress_does able).bind ?_
    rintro addr s₁ first ⟨located, rule⟩
    refine (loadFrom_does first.able located).mono ?_
    rintro typed s' _ ⟨valued, same⟩
    exact ⟨valued, fun vars mark => same ▸ rule vars mark⟩
  · next enum_ there =>
    split
    · refine .pure able ⟨Has.valued (.int ..) fun typed => ?_, fun vars mark => .enumeration mark name there⟩
      have equipped := (able.checked typed).equipped
      exact equipped.plain.lowers_enum equipped.consistent there
    · exact .fail

theorem routine_does {ty : Ir.FunctionType}
    (known : sym = "malloc" ∧ ty = mallocType ∨ sym = "free" ∧ ty = freeType) :
    aim.Does s (routine sym ty) fun found s' =>
      aim.Operand s' found.1 ∧ found.1.type = .pointer ∧ (aim.typed → found.2 = ty) := by
  intro found s' run
  obtain ⟨rfl, rfl⟩ := routine_ok run
  refine ⟨withModule_adds able (.declare ..) fun typed => (able.checked typed).equipped.declare known,
    .function fun _ => isSome_declare (.inr rfl), rfl, fun typed => ?_⟩
  rcases known with ⟨rfl, rfl⟩ | ⟨rfl, rfl⟩
  · exact (able.checked typed).equipped.malloc.getD
  · exact (able.checked typed).equipped.free.getD

theorem allocate_does {ty resolved : TypeName} (resolves : aim.ctx.program.Resolves ty resolved)
    (operand : aim.Operand s bytes) (word : aim.typed → bytes.type = .i64) :
    aim.Does s (allocate ty bytes) fun typed s' => aim.Value s' typed ∧
      typed.type = .pointer ty := by
  refine (routine_does able (.inl ⟨rfl, rfl⟩)).bind ?_
  rintro ⟨callee, sig⟩ s₁ first ⟨called, ptr, expected⟩
  dsimp only at expected
  have accepts : aim.typed → mallocType.accepts ([bytes].map (·.type)) :=
    fun typed => decide_eq_true (by simpa [mallocType] using word typed)
  refine (call_does first.able called (by simpa using first.operand operand)
    (fun typed => ⟨ptr, expected typed ▸ accepts typed⟩) fun typed _ => ?_).bind ?_
  · rw [expected typed]
    rfl
  · rintro val s₂ second ⟨same, usable, carried⟩
    refine .pure second.able ⟨⟨usable, fun typed => ⟨?_, carried typed⟩⟩, rfl⟩
    rw [same, expected typed]
    exact resolves.pointer.lowers_address rfl

theorem lowerItems_does {items : List Typed} (valued : ∀ item ∈ items, aim.Value s item)
    (solid : aim.typed → ∀ first rest, items = first :: rest →
      ¬aim.ctx.program.Resolves first.type .void) :
    aim.Does s (lowerItems aim.ctx line items) fun typed s' => aim.Value s' typed ∧
      ∃ first rest, items = first :: rest ∧ typed.type = .pointer first.type := by
  cases items with
  | nil => exact .fail
  | cons first rest =>
    refine .look expectItems_ok fun _ joins => .lift fun lowered found => ?_
    have lowers : aim.ctx.program.Lowers first.type lowered := ⟨_, found⟩
    have notVoid : aim.typed → lowered ≠ .void := by
      rintro typed rfl
      exact solid typed first rest rfl lowers.resolves_void
    refine (stackArray_does able (fun typed => (able.checked typed).equipped.sized lowers (notVoid typed)) ?_).bind ?_
    · obtain ⟨here, others⟩ := forall_mem_cons.mp valued
      rw [map_cons, forall_mem_cons]
      refine ⟨⟨here.usable, fun typed => (here.fact typed).carried ?_⟩, fun val mem => ?_⟩
      · exact (here.fact typed).lowers.unique lowers ▸ notVoid typed
      · obtain ⟨item, there, rfl⟩ := mem_map.mp mem
        obtain ⟨_, joined⟩ := joins item there
        exact ⟨(others item there).usable, fun typed => (((others item there).fact typed).suits joined).carried⟩
    · rintro slot s₁ adds ⟨pointed, ptr⟩
      obtain ⟨_, resolves⟩ := lowers.resolves
      refine .pure adds.able ⟨pointed.valued fun _ => ?_, first, rest, rfl, rfl⟩
      rw [ptr]
      exact resolves.pointer.lowers_address rfl

theorem lowerOperation_does {left right : Typed} (first : aim.Value s left)
    (second : aim.Value s right) :
    aim.Does s (lowerOperation aim.ctx line op left right) fun typed s' => aim.Value s' typed ∧
      ((logical? op).isSome = false →
        ∀ (vars : Variables) (mark : Mark) (expr expr' : Expr),
          aim.ctx.program.HasType vars expr left.type →
          aim.ctx.program.HasType vars expr' right.type →
          aim.ctx.program.HasType vars (.binary mark op expr expr') typed.type) := by
  refine .lift fun joined joins => ?_
  split
  · exact .fail
  · next ty =>
    refine .lift fun operands classifies => ?_
    have facts : aim.typed → operands.Usual ∧ left.value.type = operands.irType ∧ left.value.type ≠ .void ∧
        left.value.type = right.value.type := by
      intro typed
      obtain ⟨found, again, usual, lowered, solid, other⟩ := (first.fact typed).lowers.join joins
      obtain rfl := Except.ok.inj (classifies.symm.trans again)
      exact ⟨usual, lowered, solid, other.unique (second.fact typed).lowers⟩
    have one : aim.Operand s left.value :=
      ⟨first.usable, fun typed => (first.fact typed).carried (facts typed).2.2.1⟩
    have two : aim.Operand s right.value :=
      ⟨second.usable, fun typed => (second.fact typed).carried ((facts typed).2.2.2 ▸ (facts typed).2.2.1)⟩
    split
    · next test =>
      split
      · next predicate found =>
        refine (compare_does able one two fun typed => ?_).bind ?_
        · obtain ⟨usual, lowered, -, same⟩ := facts typed
          exact ⟨same, lowered ▸ comparison?_takes usual found⟩
        · rintro val s' adds ⟨operand, same⟩
          refine .pure adds.able ⟨operand.valued fun typed => ?_, fun _ vars mark expr expr' _ _ => ?_⟩
          · rw [same]
            exact (able.checked typed).equipped.plain.lowers .bool
          · exact .test mark expr expr' (by simp [BinaryOp.isTest, test])
      · exact .fail
    · next test =>
      split
      · next instr found =>
        refine (binary_does able one two fun typed => ?_).bind ?_
        · obtain ⟨usual, lowered, -, same⟩ := facts typed
          exact ⟨same, lowered ▸ arithmetic?_takes usual found⟩
        · rintro val s' adds ⟨operand, same⟩
          refine .pure adds.able ⟨operand.valued fun typed => ?_, fun operation vars mark expr expr' has has' => ?_⟩
          · rw [same, (facts typed).2.1]
            exact Program.lowers_of_classify classifies
          · exact .arithmetic mark (by simp [BinaryOp.isTest, test, operation]) has has' joins
      · exact .fail

end

/-! Expressions. -/

section
variable (aim)

/-- What array literals in the expression start with has a value. -/
def Solid (s : State) (expr : Expr) : Prop :=
  aim.typed → aim.ctx.program.SolidItems (.ofScope s.scope) expr

/-- The value of an expression, of the type that the rules give. -/
def Evaluating (action : Lower Typed) (expr : Expr) : Prop :=
  ∀ ⦃s⦄, aim.Able s → aim.Solid s expr → aim.Does s action fun typed s' =>
    aim.Value s' typed ∧ aim.ctx.program.HasType (.ofScope s.scope) expr typed.type

/-- The address of an expression, of storage of the type that the rules give. -/
def Locating (action : Lower Typed) (expr : Expr) : Prop :=
  ∀ ⦃s⦄, aim.Able s → aim.Solid s expr → aim.Does s action fun addr s' =>
    aim.Address s' addr ∧ aim.ctx.program.HasType (.ofScope s.scope) expr addr.type

/-- An expression is lowered in the current block, to its value and to its address. -/
structure Lowers (constant : (line : Nat) → String → Lower Typed) (expr : Expr) : Prop where
  value : aim.Evaluating (lowerExprWith aim.ctx constant expr) expr
  address : aim.Locating (lowerAddressWith aim.ctx constant expr) expr

end

variable {expr : Expr}

theorem Solid.child (solid : aim.Solid s expr) {child : Expr} (part : child ∈ expr.children) :
    aim.Solid s child :=
  fun typed => (solid typed).child part

theorem Adds.solid (adds : aim.Adds s s') (solid : aim.Solid s expr) : aim.Solid s' expr := by
  rw [Solid, adds.scope]
  exact solid

theorem Adds.hasType (adds : aim.Adds s s') {ty : TypeName}
    (typed : aim.ctx.program.HasType (.ofScope s'.scope) expr ty) :
    aim.ctx.program.HasType (.ofScope s.scope) expr ty := adds.scope ▸ typed

section
variable {constant : (line : Nat) → String → Lower Typed}

theorem lowerBase_does {α : Type} (lowers : aim.Lowers constant val) {rest : Typed → Lower α}
    {post : α → State → Prop} (able : aim.Able s) (solid : aim.Solid s val)
    (next : ∀ {base s₁ ty}, aim.Adds s s₁ → aim.Address s₁ base →
      aim.ctx.program.HasType (.ofScope s.scope) val ty → Follows aim.ctx.program ty base.type →
      aim.Does s₁ (rest base) post) :
    aim.Does s (if isAddressable aim.ctx val then do
        rest (← followAddress aim.ctx line (← lowerAddressWith aim.ctx constant val))
      else do rest (← spillValue aim.ctx line (← lowerExprWith aim.ctx constant val))) post := by
  split
  · refine (lowers.address able solid).bind ?_
    rintro addr s₁ first ⟨located, ty⟩
    refine (followAddress_does first.able located).bind ?_
    rintro base s₂ second ⟨based, follows⟩
    exact next (first.trans second) based ty follows
  · refine (lowers.value able solid).bind ?_
    rintro inner s₁ first ⟨valued, ty⟩
    refine (spillValue_does first.able valued).bind ?_
    rintro base s₂ second ⟨based, follows⟩
    exact next (first.trans second) based ty follows

theorem lowerArgsWith_does (lowers : ∀ arg ∈ args, aim.Lowers constant arg) (able : aim.Able s)
    (solid : ∀ arg ∈ args, aim.Solid s arg) :
    aim.Does s (lowerArgsWith aim.ctx constant args) fun typeds s' =>
      (∀ typed ∈ typeds, aim.Value s' typed) ∧
      Forall₂ (aim.ctx.program.HasType (.ofScope s.scope)) args (typeds.map (·.type)) := by
  induction args generalizing s with
  | nil => exact .pure able ⟨forall_mem_nil _, .nil⟩
  | cons arg args ih =>
    rw [forall_mem_cons] at lowers solid
    refine (lowers.1.value able solid.1).bind ?_
    rintro typed s₁ first ⟨valued, ty⟩
    refine (ih lowers.2 first.able fun arg mem => first.solid (solid.2 arg mem)).bind ?_
    rintro typeds s₂ second ⟨valueds, types⟩
    refine .pure second.able ⟨forall_mem_cons.mpr ⟨second.valued valued, valueds⟩, .cons ty ?_⟩
    exact types.imp fun _ _ ty => first.hasType ty

theorem lowerAddressWith_does (below : ∀ child ∈ expr.children, aim.Lowers constant child) :
    aim.Locating (lowerAddressWith aim.ctx constant expr) expr := by
  intro s able solid
  cases expr with
  | name mark name =>
    refine (nameAddress_does able).mono ?_
    rintro addr s' _ ⟨located, named⟩
    exact ⟨located, .name mark named⟩
  | load mark val =>
    refine ((below val (.head _)).value able (solid.child (.head _))).bind ?_
    rintro ptr s₁ first ⟨valued, ty⟩
    refine (targetAddress_does first.able valued).mono ?_
    rintro addr s' _ ⟨located, resolves⟩
    exact ⟨located, .load mark ty resolves⟩
  | index mark val off =>
    refine ((below val (.head _)).value able (solid.child (.head _))).bind ?_
    rintro base s₁ first ⟨valued, ty⟩
    refine (elementAddress_does first.able valued fun adds => ?_).mono ?_
    · have solidOffset := (first.trans adds).solid (solid.child (.tail _ (.head _)))
      exact ((below off (.tail _ (.head _))).value adds.able solidOffset).mono fun _ _ _ given => given.1
    · rintro addr s' _ ⟨located, resolves⟩
      exact ⟨located, .index mark off ty resolves⟩
  | member mark val field =>
    refine lowerBase_does (below val (.head _)) able (solid.child (.head _)) fun first based ty follows => ?_
    refine (memberAddress_does first.able based).mono ?_
    rintro addr s' _ ⟨located, member⟩
    exact ⟨located, member _ follows _ mark val ty⟩
  | qualified mark scope name =>
    refine (staticAddress_does able).mono ?_
    rintro addr s' _ ⟨located, rule⟩
    exact ⟨located, rule _ mark⟩
  | literal | addressOf | call | method | not | cast | function | sizeOf | allocate | allocateMany | array
  | constant | binary => exact .fail

theorem Locating.loads {action : Lower Typed} (locates : aim.Locating action expr) (line : Nat) :
    aim.Evaluating (action >>= loadFrom aim.ctx line) expr := by
  intro s able solid
  refine (locates able solid).bind ?_
  rintro addr s₁ first ⟨located, ty⟩
  refine (loadFrom_does first.able located).mono ?_
  rintro typed s' _ ⟨valued, same⟩
  exact ⟨valued, same ▸ ty⟩

theorem lowerExprWith_does
    (constants : ∀ mark name, aim.Evaluating (constant mark.line name) (.constant mark name))
    (below : ∀ child ∈ expr.children, aim.Lowers constant child) :
    aim.Evaluating (lowerExprWith aim.ctx constant expr) expr := by
  have loads := (lowerAddressWith_does below).loads
  intro s able solid
  have plain := fun typed => (able.checked typed).equipped.plain.lowers
  have arguments {s₁ : State} {args : List Expr} (parts : ∀ arg ∈ args, arg ∈ expr.children) (adds : aim.Adds s s₁) :=
    lowerArgsWith_does (fun arg mem => below arg (parts arg mem)) adds.able
      fun arg mem => adds.solid (solid.child (parts arg mem))
  cases expr with
  | literal mark val =>
    refine (lowerLiteral_does able val).mono ?_
    rintro typed s' _ ⟨valued, same⟩
    exact ⟨valued, same ▸ .literal mark val⟩
  | name mark name => exact loads mark.line able solid
  | load mark val | index mark val off =>
    have evaluates := loads mark.line able solid
    rw [lowerAddressWith, bind_assoc] at evaluates
    exact evaluates
  | member mark val field =>
    refine lowerBase_does (below val (.head _)) able (solid.child (.head _)) fun first based ty follows => ?_
    refine (memberAddress_does first.able based).bind ?_
    rintro addr s₂ second ⟨located, member⟩
    refine (loadFrom_does second.able located).mono ?_
    rintro typed s' _ ⟨valued, same⟩
    exact ⟨valued, same ▸ member _ follows _ mark val ty⟩
  | addressOf mark val =>
    refine ((below val (.head _)).address able (solid.child (.head _))).bind ?_
    rintro addr s₁ first ⟨located, ty⟩
    refine .pure first.able ⟨located.operand.valued fun typed => ?_, .addressOf mark ty⟩
    obtain ⟨_, resolves⟩ := (located.fact typed).resolves
    rw [(located.fact typed).pointer]
    exact resolves.pointer.lowers_address rfl
  | call mark scope name args =>
    cases scope with
    | none =>
      refine (arguments (by simp [Expr.children]) (.refl able)).bind ?_
      rintro typeds s₁ first ⟨valued, types⟩
      refine (callNamed_does first.able valued).mono ?_
      rintro typed s' _ ⟨valued, rule⟩
      rw [first.scope] at rule
      exact ⟨valued, rule mark args types⟩
    | some scope =>
      refine .look staticClass_ok fun cls there => (arguments (by simp [Expr.children]) (.refl able)).bind ?_
      rintro typeds s₁ first ⟨valued, types⟩
      refine (callStatic_does first.able valued (mem_of_find?_eq_some there)).mono ?_
      rintro typed s' _ ⟨valued, _, sig, found, same⟩
      exact ⟨valued, same ▸ .callStatic mark there types found⟩
  | method mark val name args =>
    refine lowerBase_does (below val (.head _)) able (solid.child (.head _)) fun first based ty follows => ?_
    refine .look objectClass_ok ?_
    rintro cls ⟨owner, resolves, there⟩
    refine (arguments (by simp +contextual [Expr.children]) first).bind ?_
    rintro typeds s₂ second ⟨valued, types⟩
    rw [first.scope] at types
    refine (callMethod_does second.able valued (mem_of_find?_eq_some there) (second.located based)).mono ?_
    rintro typed s' _ ⟨valued, _, sig, found, same⟩
    exact ⟨valued, same ▸ .method mark ty (follows _ ⟨_, resolves⟩) there types found⟩
  | not mark val =>
    refine ((below val (.head _)).value able (solid.child (.head _))).bind ?_
    rintro inner s₁ first ⟨valued, -⟩
    refine (truth_does first.able valued).bind ?_
    rintro cond s₂ second ⟨tested, bool⟩
    refine (binary_does second.able tested (.int ..) fun typed => ⟨bool typed, bool typed ▸ rfl⟩).bind ?_
    rintro res s₃ third ⟨operand, same⟩
    refine .pure third.able ⟨operand.valued fun typed => ?_, .not mark val⟩
    rw [same, bool typed]
    exact plain typed .bool
  | cast mark target val =>
    refine ((below val (.head _)).value able (solid.child (.head _))).bind ?_
    rintro inner s₁ first ⟨valued, -⟩
    exact (convert_does first.able valued).bind fun _ _ second converted =>
      .pure second.able ⟨converted, .cast mark target val⟩
  | function mark name types =>
    refine .lift fun found chosen => ?_
    split
    · next sig =>
      have declared := fun typed =>
        callablesNamed_declared (able.checked typed).equipped (Program.findExact_ok chosen)
      exact .pure able ⟨Has.valued (.function fun typed => (declared typed).symbol)
        fun typed => lowers_pointerType (declared typed), .function mark chosen⟩
    · exact .fail
  | sizeOf mark ty =>
    exact .look sizeOfType_ok fun _ _ =>
      .pure able ⟨Has.valued (.int ..) fun typed => plain typed .usize, .sizeOf mark ty⟩
  | allocate mark ty count =>
    refine .look sizeOfType_ok ?_
    rintro size ⟨_, found, -⟩
    obtain ⟨_, resolves⟩ := Program.Lowers.resolves ⟨_, found⟩
    refine (allocate_does able resolves (.int ..) fun _ => rfl).mono ?_
    rintro typed s' _ ⟨valued, same⟩
    exact ⟨valued, same ▸ .allocate mark ty count⟩
  | allocateMany mark ty count =>
    refine .look sizeOfType_ok ?_
    rintro size ⟨_, found, -⟩
    obtain ⟨_, resolves⟩ := Program.Lowers.resolves ⟨_, found⟩
    refine ((below count (.head _)).value able (solid.child (.head _))).bind ?_
    rintro inner s₁ first ⟨valued, -⟩
    refine (widenIndex_does first.able valued).bind ?_
    rintro word s₂ second ⟨counted, wide⟩
    refine (binary_does second.able counted (.int ..) fun typed => ⟨wide typed, wide typed ▸ rfl⟩).bind ?_
    rintro bytes s₃ third ⟨operand, same⟩
    refine (allocate_does third.able resolves operand fun typed => same.trans (wide typed)).mono ?_
    rintro typed s' _ ⟨valued, same⟩
    exact ⟨valued, same ▸ .allocateMany mark ty count⟩
  | array mark items =>
    refine (arguments (by simp [Expr.children]) (.refl able)).bind ?_
    rintro typeds s₁ first ⟨valued, types⟩
    refine (lowerItems_does first.able valued ?_).mono ?_
    · -- The rule for the first item is what the excluded literals are about.
      rintro checks head rest rfl
      obtain ⟨item, others, typed, -, rfl⟩ := forall₂_cons_right_iff.mp types
      exact solid checks mark item others head.type (.self _) typed
    · rintro typed s' _ ⟨ptr, head, rest, rfl, same⟩
      obtain ⟨item, others, typed, -, rfl⟩ := forall₂_cons_right_iff.mp types
      exact ⟨ptr, same ▸ .array mark others typed⟩
  | constant mark name => exact constants mark name able solid
  | qualified mark scope name =>
    refine (lowerQualified_does able).mono ?_
    rintro typed s' _ ⟨valued, rule⟩
    exact ⟨valued, rule _ mark⟩
  | binary mark op left right =>
    have one := (below left (.head _)).value able (solid.child (.head _))
    have other {s₁ : State} (adds : aim.Adds s s₁) :=
      (below right (.tail _ (.head _))).value adds.able (adds.solid (solid.child (.tail _ (.head _))))
    simp only [lowerExprWith]
    split
    · next instr logical =>
      refine one.bind ?_
      rintro _ s₁ first ⟨valued, -⟩
      refine (truth_does first.able valued).bind ?_
      rintro cond s₂ second ⟨tested, bool⟩
      refine (other (first.trans second)).bind ?_
      rintro _ s₃ third ⟨valued, -⟩
      refine (truth_does third.able valued).bind ?_
      rintro cond' s₄ fourth ⟨tested', bool'⟩
      have takes : instr.takes .bool := by
        cases op <;> simp only [logical?, Option.some.injEq, reduceCtorEq] at logical <;> subst logical <;> rfl
      refine (binary_does fourth.able ((third.trans fourth).operand tested) tested' fun typed =>
        ⟨(bool typed).trans (bool' typed).symm, bool typed ▸ takes⟩).bind ?_
      rintro res s₅ fifth ⟨operand, same⟩
      refine .pure fifth.able ⟨operand.valued fun typed => ?_, .test mark left right ?_⟩
      · rw [same, bool typed]
        exact plain typed .bool
      · simp [BinaryOp.isTest, logical]
    · next operation =>
      refine one.bind ?_
      rintro _ s₁ first ⟨valued, ty⟩
      refine (other first).bind ?_
      rintro _ s₂ second ⟨valued', ty'⟩
      refine (lowerOperation_does second.able (second.valued valued) valued').mono ?_
      rintro typed s' _ ⟨valued, rule⟩
      exact ⟨valued, rule (by simp [operation]) _ mark left right ty (first.hasType ty')⟩

theorem lowers_all
    (constants : ∀ mark name, aim.Evaluating (constant mark.line name) (.constant mark name)) :
    ∀ expr, aim.Lowers constant expr :=
  Expr.induct fun _ below => ⟨lowerExprWith_does constants below, lowerAddressWith_does below⟩

end

/-- Constants are lowered like the expressions they stand for. -/
theorem lowerConstant_does (fuel : Nat) (expanding : List String) (mark : Mark) (name : String) :
    aim.Evaluating (lowerConstant aim.ctx fuel expanding mark.line name) (.constant mark name) := by
  induction fuel generalizing expanding mark name with
  | zero =>
    intro s able solid
    unfold lowerConstant
    split <;> exact .fail
  | succ fuel ih =>
    intro s able solid
    unfold lowerConstant
    split
    · exact .fail
    · next constant there =>
      dsimp only
      split
      · exact .fail
      · -- Constants inside the value are lowered with less fuel.
        have solidValue : aim.Solid s constant.value := fun typed inner first rest ty contains =>
          solid typed inner first rest ty (.constant mark there contains)
        refine ((lowers_all (ih _) _).value able solidValue).mono ?_
        rintro typed s' _ ⟨valued, ty⟩
        exact ⟨valued, .constant mark there ty⟩

/-- Every expression is lowered in the current block. -/
theorem lowers (aim : Aim) (expr : Expr) : aim.Lowers (constantValue aim.ctx) expr :=
  lowers_all (lowerConstant_does _ _) expr

section
variable (able : aim.Able s)
include able

theorem lowerCondition_does (solid : aim.Solid s expr) :
    aim.Does s (lowerCondition aim.ctx expr) fun val s' =>
      aim.Operand s' val ∧ (aim.typed → val.type = .bool) := by
  refine ((lowers aim expr).value able solid).bind ?_
  rintro typed s₁ first ⟨valued, -⟩
  exact truth_does first.able valued

variable {val : Expr} (solid : aim.Solid s val)
include solid

theorem lowerAssign_does (solidTarget : aim.Solid s target) :
    aim.Does s (lowerAssign aim.ctx line target val) fun _ _ => True := by
  refine ((lowers aim target).address able solidTarget).bind ?_
  rintro addr s₁ first ⟨located, -⟩
  refine ((lowers aim val).value first.able (first.solid solid)).bind ?_
  rintro typed s₂ second ⟨valued, -⟩
  refine .look expectInto_ok ?_
  rintro _ ⟨_, joins⟩
  exact store_does second.able ⟨valued.usable, fun typed => ((valued.fact typed).suits joins).carried⟩
    (second.operand located.operand) fun typed => (located.fact typed).pointer

/-- What is deleted goes to a routine of the expected type. -/
theorem lowerDelete_does : aim.Does s (lowerDelete aim.ctx line val) fun _ _ => True := by
  refine ((lowers aim val).value able solid).bind ?_
  rintro typed s₁ first ⟨valued, -⟩
  refine .lift fun operands classifies => ?_
  split
  · exact .fail
  · next ptr =>
    obtain rfl := Decidable.not_not.mp ptr
    obtain ⟨operand, addr⟩ := valued.class classifies nofun
    refine (routine_does first.able (.inr ⟨rfl, rfl⟩)).bind ?_
    rintro ⟨callee, sig⟩ s₂ second ⟨called, isPointer, expected⟩
    dsimp only at expected
    have accepts : aim.typed → freeType.accepts ([typed.value].map (·.type)) :=
      fun checks => decide_eq_true (by simpa [freeType, TypeClass.irType] using addr checks)
    refine (call_does second.able called (by simpa using second.operand operand)
      (fun typed => ⟨isPointer, expected typed ▸ accepts typed⟩) fun typed solid => ?_).bind ?_
    · rw [expected typed] at solid
      contradiction
    · exact fun _ _ third _ => .pure third.able trivial

end

end Aim

/-! Well built code alone. -/

def Yields (params : Nat) (s : State) (val : Ir.Value) (s' : State) : Prop :=
  Emits params s s' ∧ Usable params s' val

/-- Types are not looked at. -/
abbrev Context.building (ctx : Context) (params : Nat) : Aim := ⟨ctx, params, True, False⟩

section
variable {params : Nat} {ctx : Context} {typed : Typed} {val : Ir.Value} {expr : Expr}
  {args : List Typed}

theorem has_of_usable {fact : Prop} (usable : Usable params s val) :
    (ctx.building params).Has s val fact :=
  ⟨fun _ => usable, nofun⟩

variable (ready : Ready params s)
include ready

theorem Ready.able : (ctx.building params).Able s := ⟨fun _ => ready, nofun⟩

theorem lowerExpr_yields (run : (lowerExpr ctx expr).run s = .ok (typed, s')) :
    Yields params s typed.value s' := by
  obtain ⟨adds, valued, -⟩ := (Aim.lowers (ctx.building params) expr).value ready.able nofun run
  exact ⟨adds.emits trivial, valued.usable trivial⟩

theorem lowerArgsWith_yields
    (run : (lowerArgsWith ctx (constantValue ctx) exprs).run s = .ok (args, s')) :
    Emits params s s' ∧ ∀ typed ∈ args, Usable params s' typed.value := by
  obtain ⟨adds, valued, -⟩ := Aim.lowerArgsWith_does (fun expr _ => Aim.lowers (ctx.building params) expr) ready.able
    (fun _ _ => nofun) run
  exact ⟨adds.emits trivial, fun typed mem => (valued typed mem).usable trivial⟩

theorem lowerCondition_yields (run : (lowerCondition ctx expr).run s = .ok (val, s')) :
    Yields params s val s' := by
  obtain ⟨adds, operand, -⟩ := Aim.lowerCondition_does (ready.able : (ctx.building params).Able s) nofun run
  exact ⟨adds.emits trivial, operand.usable trivial⟩

theorem callNamed_yields (usable : ∀ arg ∈ args, Usable params s arg.value)
    (run : (callNamed ctx line name args).run s = .ok (typed, s')) :
    Yields params s typed.value s' := by
  obtain ⟨adds, valued, -⟩ := Aim.callNamed_does (ready.able : (ctx.building params).Able s)
    (fun arg mem => has_of_usable (usable arg mem)) run
  exact ⟨adds.emits trivial, valued.usable trivial⟩

theorem lowerOperation_yields {left right : Typed} (first : Usable params s left.value)
    (second : Usable params s right.value)
    (run : (lowerOperation ctx line op left right).run s = .ok (typed, s')) :
    Yields params s typed.value s' := by
  obtain ⟨adds, valued, -⟩ :=
    Aim.lowerOperation_does (ready.able : (ctx.building params).Able s) (has_of_usable first)
    (has_of_usable second) run
  exact ⟨adds.emits trivial, valued.usable trivial⟩

variable (usable : Usable params s typed.value)
include usable

theorem convert_yields {target : TypeName}
    (run : (convert ctx line typed target).run s = .ok (val, s')) :
    Yields params s val s' := by
  obtain ⟨adds, valued⟩ := Aim.convert_does (ready.able : (ctx.building params).Able s) (has_of_usable usable) run
  exact ⟨adds.emits trivial, valued.usable trivial⟩

theorem truth_yields (run : (truth ctx line typed).run s = .ok (val, s')) :
    Yields params s val s' := by
  obtain ⟨adds, operand, -⟩ := Aim.truth_does (ready.able : (ctx.building params).Able s) (has_of_usable usable) run
  exact ⟨adds.emits trivial, operand.usable trivial⟩

end

end TernLang.Lowering
