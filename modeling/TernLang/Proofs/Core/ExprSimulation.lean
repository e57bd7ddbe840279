import TernLang.Proofs.Core.CallSimulation

/-! Code of an expression computes its value. It adds no slots; it runs in the current block, from
left to right, and ends with the value in a new register or in a constant. -/
namespace TernLang

open List

namespace Core

open Ir (Builder)
open Lowering
open Machine (Image Linked)
open Activation (Holds Agrees)
open Success

variable {op : BinaryOp} {mark : Mark} {name : String} {env : Env}

section
variable {image : Image} {depth n : Nat} {act : Activation} {ctx : Context} {line : Nat}
  {s s' s'' : State} {m m' m'' : Machine.State} {val : Ir.Value} {datum d : Datum}

theorem Activation.Holds.cast (holds : Holds image n frame val datum)
    (bits : d.scalar.bits = datum.scalar.bits) (word : d.word = datum.word) :
    Holds image n frame val d :=
  ⟨by rw [holds.type, bits], fun frame' agrees store => by rw [holds.eval frame' agrees store, Datum.slot, Datum.slot, word]⟩

/-- Code between two states of lowering has computed a value. -/
structure Gives (image : Image) (act : Activation) (s s' : State) (m : Machine.State)
    (val : Ir.Value)
    (datum : Datum) (m' : Machine.State) : Prop where
  moves : act.Moves s.builder.nextRegister s'.builder m m'
  holds : Holds image s'.builder.nextRegister m'.frame val datum

theorem Gives.after (le : s.builder.nextRegister ≤ s'.builder.nextRegister)
    (moves : act.Moves s.builder.nextRegister s'.builder m m')
    (gives : Gives image act s' s'' m' val datum m'') :
    Gives image act s s'' m val datum m'' :=
  ⟨moves.trans gives.moves le, gives.holds⟩

theorem Gives.here (here : act.Here s.builder m)
    (holds : Holds image s.builder.nextRegister m.frame val datum) :
    Gives image act s s m val datum m :=
  ⟨⟨here, .refl _ _, fun _ _ => rfl⟩, holds⟩

theorem gives_emit (depth : Nat) (here : act.Here s.builder m) (inside : s.builder.current ≠ 0)
    {ty : IrType} (grows : (s.built (.emit ty make)).builder.Grows act.final)
    (plain : ∀ res callee ty args, make s.builder.nextRegister ≠ .call res callee ty args)
    (defines : (make s.builder.nextRegister).result? = some s.builder.nextRegister)
    (bits : ty = .int datum.scalar.bits) (performs : ∀ rest,
      (Machine.perform image (m.frame.behind rest) (make s.builder.nextRegister)).run m.store =
      .ok ((m.frame.behind rest).assign s.builder.nextRegister datum.slot, m.store)) :
    ∃ n m', Machine.Reach image depth n m m' ∧
      Gives image act s (s.built (.emit ty make)) m
        (.register s.builder.nextRegister ty) datum m' := by
  obtain ⟨m', reach, moves, holds⟩ := here.assigns depth inside grows plain defines performs
  exact ⟨1, m', reach, moves, bits ▸ holds⟩

theorem test_gives (here : act.Here s.builder m) (inside : s.builder.current ≠ 0)
    (holds : Holds image s.builder.nextRegister m.frame val datum)
    (grows : (s.built (.compare .ne val (.zero val.type))).builder.Grows act.final) :
    ∃ n m', Machine.Reach image depth n m m' ∧
      Gives image act s (s.built (.compare .ne val (.zero val.type))) m
        (.register s.builder.nextRegister .bool) (.ofBool datum.isTrue) m' := by
  refine gives_emit depth here inside grows (by simp) rfl rfl fun rest => ?_
  have zero : (Machine.eval image (m.frame.behind rest) (.zero val.type)).run m.store = .ok (.int 0, m.store) := by
    rw [holds.type]
    rfl
  have compares : Machine.compare .ne val.type datum.slot (.int 0) = .ok datum.isTrue := by
    rw [holds.type]
    exact compare_zero datum
  rw [Datum.slot, Datum.word_ofBool]
  exact Machine.perform_compare (holds.eval _ (.behind _ _ rest) m.store) zero compares

section
variable (core : IsCore ctx.program)
include core

theorem truth_gives (here : act.Here s.builder m) (inside : s.builder.current ≠ 0) {typed : Typed}
    (ty : typed.type = datum.scalar.type)
    (holds : Holds image s.builder.nextRegister m.frame typed.value datum)
    (run : (truth ctx line typed).run s = .ok (val, s')) (grows : s'.builder.Grows act.final) :
    ∃ n m', Machine.Reach image depth n m m' ∧
      Gives image act s s' m val (.ofBool datum.isTrue) m' := by
  rcases truth_ok run with ⟨tested, rfl, rfl⟩ | ⟨kind, tested, rfl, rfl⟩
  · rw [ty] at tested
    rcases condition_scalar core.aliases _ tested with ⟨bool, -⟩ | ⟨_, -, other⟩
    · refine ⟨0, m, .here m, .here here (holds.cast ?_ (word_ofBool_isTrue bool))⟩
      rw [bool]
      rfl
    · contradiction
  · exact test_gives here inside holds grows

theorem truth_solid {typed : Typed} (run : (truth ctx line typed).run s = .ok (val, s')) :
    typed.type ≠ .void := by
  rcases truth_ok run with ⟨tested, -⟩ | ⟨_, tested, -⟩
  · exact condition_solid core.aliases _ tested
  · exact condition_solid core.aliases _ tested

theorem convert_gives (here : act.Here s.builder m) (inside : s.builder.current ≠ 0) {typed : Typed}
    (ty : typed.type = datum.scalar.type)
    (holds : Holds image s.builder.nextRegister m.frame typed.value datum)
    (run : (convert ctx line typed tgt.type).run s = .ok (val, s'))
    (grows : s'.builder.Grows act.final) :
    ∃ n m', Machine.Reach image depth n m m' ∧ Gives image act s s' m val (datum.cast tgt) m' := by
  obtain ⟨src, into, conv, first, second, known, applied⟩ := convert_ok run
  rw [ty, classify_scalar core.aliases] at first
  rw [classify_scalar core.aliases] at second
  cases first
  cases second
  have scalar : (datum.cast tgt).scalar = tgt := by
    cases tgt <;> rfl
  rcases conversion_residue datum known with ⟨rfl, word, bits⟩ | ⟨op, rfl, casts⟩ | ⟨rfl, rfl⟩
  · rcases applyConversion_ok applied with ⟨-, rfl, rfl⟩ | ⟨_, other, -⟩ | ⟨_, other, -⟩
    · exact ⟨0, m, .here m, .here here (holds.cast (by rw [scalar, bits]) word)⟩
    · contradiction
    · contradiction
  · rcases applyConversion_ok applied with ⟨other, -⟩ | ⟨op', same, rfl, rfl⟩ | ⟨_, other, -⟩
    · contradiction
    · cases same
      refine gives_emit depth here inside grows (by simp) rfl (by rw [scalar, Scalar.irType_typeClass]) fun rest => ?_
      exact Machine.perform_cast (holds.eval _ (.behind _ _ rest) m.store)
        (by rw [holds.type, Scalar.irType_typeClass]; exact casts)
    · contradiction
  · rcases applyConversion_ok applied with ⟨other, -⟩ | ⟨_, other, -⟩ | ⟨predicate, same, rfl, rfl⟩
    · contradiction
    · contradiction
    · cases same
      exact test_gives here inside holds grows

theorem convert_solid {typed : Typed} {tgt : TypeName}
    (run : (convert ctx line typed tgt).run s = .ok (val, s')) : typed.type ≠ .void := by
  intro void
  obtain ⟨src, into, conv, first, -, known, -⟩ := convert_ok run
  rw [void, classify_void core.aliases] at first
  cases first
  contradiction

theorem operation_simulates (here : act.Here s.builder m) (inside : s.builder.current ≠ 0)
    {left right typed : Typed} {bound fuel : Nat} (leftType : left.type = a.scalar.type)
    (leftHolds : Holds image s.builder.nextRegister m.frame left.value a)
    (rightType : right.type = b.scalar.type)
    (rightHolds : Holds image s.builder.nextRegister m.frame right.value b)
    (run : (lowerOperation ctx line op left right).run s = .ok (typed, s'))
    (grows : s'.builder.Grows act.final) :
    Simulates image depth bound fuel m (binary op a b) fun d m' =>
      typed.type = d.scalar.type ∧ Gives image act s s' m typed.value d m' := by
  obtain ⟨ty, operands, joins, classified, kind⟩ := lowerOperation_ok run
  rw [leftType, rightType, join_scalar core.aliases] at joins
  split at joins
  · next same =>
    cases joins
    rw [classify_scalar core.aliases] at classified
    cases classified
    rcases kind with ⟨predicate, known, -, rfl, rfl⟩ | ⟨instr, known, -, rfl, rfl⟩
    · obtain ⟨outcome, val, compares⟩ := comparison_residue same known
      rw [← leftHolds.type] at compares
      obtain ⟨n, m', reach, gives⟩ := gives_emit depth here inside grows (by simp) rfl
        (show IrType.bool = .int (Datum.ofBool outcome).scalar.bits from rfl) fun rest => by
          rw [Datum.slot, Datum.word_ofBool]
          exact Machine.perform_compare (leftHolds.eval _ (.behind _ _ rest) m.store)
            (rightHolds.eval _ (.behind _ _ rest) m.store)
            compares
      rw [val]
      exact .step reach (.ok ⟨rfl, gives⟩)
    · rcases arithmetic_residue same known with ⟨datum, val, scalar, computes⟩ | ⟨val, faults⟩
      · rw [← leftHolds.type] at computes
        obtain ⟨n, m', reach, gives⟩ := gives_emit depth here inside grows (by simp) rfl
          (show left.value.type = .int datum.scalar.bits by rw [leftHolds.type, scalar]) fun rest =>
            Machine.perform_binary (leftHolds.eval _ (.behind _ _ rest) m.store)
            (rightHolds.eval _ (.behind _ _ rest) m.store) computes
        rw [val]
        exact .step reach (.ok ⟨by rw [scalar], gives⟩)
      · rw [val]
        rw [← leftHolds.type] at faults
        obtain ⟨rest, code, -, -⟩ := here.code grows
        refine .divides here.1.calm ?_
        rw [Machine.next_perform code (by simp), Machine.perform_binary_fault
          (leftHolds.eval _ (.behind _ _ rest) m.store) (rightHolds.eval _ (.behind _ _ rest) m.store) faults]
        rfl
  · simp at joins

end

end

section
variable (image : Image) (depth fuel : Nat) (home : Linked)

/-- Code of an expression computes its value, if it is one. -/
def Computes (ctx : Context) (expr : Expr) (s : State) (typed : Typed) (s' : State) : Prop :=
  typed.type ≠ .void → ∀ {act : Activation} {m : Machine.State} {env : Env}, act.home = home →
    s'.builder.Grows act.final → act.Here s.builder m → EnvHolds act m.store.memory ctx s.scope env →
    Simulates image depth (act.callers.length + fuel + 1) fuel m (evalExpr (calls ctx.program fuel) env expr)
      fun datum m' => typed.type = datum.scalar.type ∧ Gives image act s s' m typed.value datum m'

/-- So it does wherever the expression is lowered. -/
def Computed (params : Nat) (ctx : Context) (expr : Expr) : Prop :=
  ∀ {s s' : State} {typed : Typed}, Ready params s → (lowerExpr ctx expr).run s = .ok (typed, s') →
    Computes image depth fuel home ctx expr s typed s'

end

variable {image : Image} {depth fuel params line : Nat} {home : Linked} {ctx : Context}
  {s s' : State} {typed : Typed} {typeds : List Typed}

theorem literal_computes (inCore : isCoreExpr (.literal mark literal))
    (run : (lowerExpr ctx (.literal mark literal)).run s = .ok (typed, s')) :
    Computes image depth fuel home ctx (.literal mark literal) s typed s' := by
  simp only [lowerExpr, lowerExprWith] at run
  intro _ act m env _ _ here _
  cases literal with
  | bool val =>
    obtain ⟨rfl, rfl⟩ := run_pure_ok.mp run
    refine .ok ⟨rfl, .here here (Activation.holds_int rfl ?_)⟩
    cases val <;> rfl
  | integer kind val =>
    obtain ⟨rfl, rfl⟩ := run_pure_ok.mp run
    refine .ok ⟨rfl, .here here (Activation.holds_int rfl ?_)⟩
    rw [Datum.word_of]
    exact Word.truncate_ofInt (Scalar.bits_le (.integer kind)) val
  | half | float | double | null | string => contradiction

theorem name_computes (core : IsCore ctx.program) (ready : Ready params s)
    (run : (lowerExpr ctx (.name mark name)).run s = .ok (typed, s')) :
    Computes image depth fuel home ctx (.name mark name) s typed s' := by
  simp only [lowerExpr, lowerExprWith, run_bind_ok] at run
  obtain ⟨addr, s₁, named, loads⟩ := run
  intro _ act m env _ grows here holds
  obtain ⟨rfl, ⟨var, found, rfl⟩ | ⟨-, global, known, -⟩⟩ := nameAddress_ok named
  · obtain ⟨lowered, solid, -, rfl, rfl⟩ := loadFrom_ok loads
    obtain ⟨datum, val, reg, slot, ty, stored⟩ := holds.lookup found
    obtain ⟨i, there, reads⟩ := stored.reads here.1
    rw [ty, irType_scalar core.aliases] at solid
    cases solid
    rw [evalExpr, val]
    obtain ⟨n, m', reach, gives⟩ := gives_emit depth here ready.inside grows (by simp) rfl rfl fun rest => by
      have pointed := here.1.eval_pointer there image (m.frame.behind rest) rfl m.store
      rw [← slot] at pointed
      exact Machine.perform_load pointed reads
    exact .step reach (.ok ⟨ty, gives⟩)
  · rw [Program.global?, core.globals] at known
    contradiction

theorem args_simulate (each : ∀ arg ∈ args, Computed image depth fuel home params ctx arg)
    (ready : Ready params s)
    (run : (lowerArgsWith ctx (constantValue ctx) args).run s = .ok (typeds, s'))
    (solid : ∀ typed ∈ typeds, typed.type ≠ .void) (same : act.home = home)
    (grows : s'.builder.Grows act.final) (here : act.Here s.builder m)
    (holds : EnvHolds act m.store.memory ctx s.scope env) :
    Simulates image depth (act.callers.length + fuel + 1) fuel m
      (evalArgs (calls ctx.program fuel) env args)
      fun data m' => typeds.map (·.type) = data.map (·.scalar.type) ∧
        act.Moves s.builder.nextRegister s'.builder m m' ∧
        Forall₂ (Holds image s'.builder.nextRegister m'.frame) (typeds.map (·.value)) data := by
  induction args generalizing s typeds m with
  | nil =>
    obtain ⟨rfl, rfl⟩ := run_pure_ok.mp run
    exact .ok ⟨rfl, ⟨here, .refl _ _, fun _ _ => rfl⟩, .nil⟩
  | cons arg args ih =>
    simp only [lowerArgsWith, run_bind_ok, run_pure_ok] at run
    obtain ⟨typed, s₁, lowered, rest, s₂, others, rfl, rfl⟩ := run
    obtain ⟨first, others'⟩ := forall_mem_cons.mp solid
    obtain ⟨emits, -⟩ := lowerExpr_yields ready lowered
    obtain ⟨emits', -⟩ := lowerArgsWith_yields emits.ready others
    refine (each arg (by simp) ready lowered first same (emits'.grows.trans grows) here holds).bind ?_
    rintro datum m₁ - ⟨ty, gives⟩
    have holds₁ : EnvHolds act m₁.store.memory ctx s₁.scope env := emits.scope ▸ holds.kept gives.moves.kept
    refine (ih (fun other mem => each other (by simp [mem])) emits.ready others others' gives.moves.here
      holds₁).bind ?_
    rintro data m₂ - ⟨types, moves, values⟩
    refine .ok ⟨by rw [map_cons, map_cons, ty, types], gives.moves.trans moves emits.registers, ?_⟩
    exact .cons (gives.holds.mono moves.agrees emits'.registers) values

def ResultGiven (image : Image) (act : Activation) (s s' : State) (m : Machine.State) (typed : Typed) :
    Option Datum → Machine.State → Prop
  | some datum, m' => typed.type = datum.scalar.type ∧ Gives image act s s' m typed.value datum m'
  | none, m' => typed.type = .void ∧ act.Moves s.builder.nextRegister s'.builder m m'

section
variable (core : IsCore ctx.program)
include core

theorem build_call_simulates (run : FunctionsRun image depth home ctx.program fuel)
    (ready : Ready params s) (known : fn ∈ ctx.program.functions)
    (types : fn.paramTypes = data.map (·.scalar.type)) (same : act.home = home)
    (here : act.Here s.builder m)
    (holds : Forall₂ (Holds image s.builder.nextRegister m.frame) values data)
    {ty : Ir.FunctionType} (res : ctx.program.irType (ctx.location line) fn.result = .ok ty.result)
    (typed_type : typed.type = fn.result)
    (built : (build (.call (.function (Signature.ofFunction fn none).symbol) ty values)).run s =
      .ok (typed.value, s')) (grows : s'.builder.Grows act.final) :
    Simulates image depth (act.callers.length + fuel + 1) fuel m
      (callFunction ctx.program fuel fn data)
      (ResultGiven image act s s' m typed) := by
  simp only [Ir.Build.call] at built
  rcases (coreFunction (core.functions fn known)).result with void | ⟨scalar, returns⟩
  · rw [void, irType_void core.aliases] at res
    rw [if_pos (Except.ok.inj res).symm] at built
    obtain ⟨-, rfl⟩ := build_ok.mp built
    refine (here.calls run ready.inside same known types holds grows (by simp)).mono ?_
    rintro (_ | datum) m' - ⟨resultTyped, moves, -⟩
    · exact ⟨typed_type.trans resultTyped, moves⟩
    · exact absurd (resultTyped.symm.trans void) datum.scalar.type_ne_void
  · rw [returns, irType_scalar core.aliases, Except.ok.injEq] at res
    rw [if_neg (by rw [← res]; simp)] at built
    obtain ⟨val, rfl⟩ := build_ok.mp built
    refine (here.calls run ready.inside same known types holds grows ?_).mono ?_
    · rintro reg ⟨⟩
      rfl
    rintro (_ | datum) m' - ⟨resultTyped, moves, assigned⟩
    · exact absurd (returns.symm.trans resultTyped) scalar.type_ne_void
    · rw [ResultTyped, returns] at resultTyped
      have scalars := Scalar.type_injective resultTyped
      refine ⟨typed_type.trans (by rw [returns, scalars]), moves, ?_⟩
      rw [val]
      rw [← res, scalars]
      exact Activation.holds_register (assigned _ rfl) (Nat.lt_succ_self _)

theorem not_functionVariable (holds : EnvHolds act memory ctx s.scope env) :
    ¬ (functionVariable? ctx line name).run s = .ok (some (ptr, sig), s') := by
  intro run
  obtain ⟨addr, _, ty, _, _, _, _, named, -, -, rfl, resolved, -⟩ := functionVariable?_some run
  obtain ⟨-, ⟨var, found, rfl⟩ | ⟨-, global, known, -⟩⟩ := nameAddress_ok named
  · obtain ⟨datum, -, reg, -, typed, -⟩ := holds.lookup found
    rw [typed, resolve_scalar core.aliases] at resolved
    simp [Scalar.type] at resolved
  · rw [Program.global?, core.globals] at known
    contradiction

theorem callNamed_solid (holds : EnvHolds act memory ctx s.scope env)
    (run : (callNamed ctx line name typeds).run s = .ok (typed, s')) :
    ∀ arg ∈ typeds, arg.type ≠ .void := by
  rcases callNamed_ok run with ⟨sig, found, -⟩ | ⟨-, ptr, sig, s₁, held, -⟩
  · intro arg mem
    exact (findCallable_solid _ core found).2 arg.type (mem_map.mpr ⟨arg, mem, rfl⟩)
  · exact absurd held (not_functionVariable core holds)

theorem callNamed_simulates (fns : FunctionsRun image depth home ctx.program fuel)
    (ready : Ready params s) (run : (callNamed ctx line name typeds).run s = .ok (typed, s'))
    (same : act.home = home) (grows : s'.builder.Grows act.final) (here : act.Here s.builder m)
    (holds : EnvHolds act m.store.memory ctx s.scope env)
    (types : typeds.map (·.type) = data.map (·.scalar.type))
    (values : Forall₂ (Holds image s.builder.nextRegister m.frame) (typeds.map (·.value)) data) :
    Simulates image depth (act.callers.length + fuel + 1) fuel m (calls ctx.program fuel name data)
      (ResultGiven image act s s' m typed) := by
  rcases callNamed_ok run with ⟨sig, found, called⟩ | ⟨-, ptr, sig, s₁, held, -⟩
  · rw [types, findCallable_core _ core] at found
    cases chosen : callee? ctx.program name data with
    | none => simp [chosen] at found
    | some fn =>
      rw [chosen, Option.map_some, Except.ok.injEq, Option.some.injEq] at found
      subst found
      have known : fn ∈ ctx.program.functions := mem_of_find?_eq_some chosen
      have accepts := find?_some chosen
      simp only [Bool.decide_and, Bool.and_eq_true, decide_eq_true_eq] at accepts
      obtain ⟨params_eq, fixed⟩ := ofFunction_core (core.functions fn known)
      obtain ⟨ty, tail, s₁, typed_function, packed, typed_type, built⟩ := emitCall_ok called
      rw [fixed] at packed
      obtain ⟨rfl, rfl⟩ := run_pure_ok.mp packed
      have all : typeds.take (Signature.ofFunction fn none).params.length = typeds := by
        rw [params_eq, accepts.2, ← types, length_map, take_length]
      rw [all, append_nil] at built
      rw [calls, chosen]
      exact build_call_simulates core fns ready known accepts.2 same here values
        (functionType_ok typed_function).2.1 typed_type built grows
  · exact absurd held (not_functionVariable core holds)

theorem call_simulates (fns : FunctionsRun image depth home ctx.program fuel)
    (each : ∀ arg ∈ args, Computed image depth fuel home params ctx arg) (ready : Ready params s)
    (run : (lowerExpr ctx (.call mark none name args)).run s = .ok (typed, s'))
    (same : act.home = home) (grows : s'.builder.Grows act.final) (here : act.Here s.builder m)
    (holds : EnvHolds act m.store.memory ctx s.scope env) :
    Simulates image depth (act.callers.length + fuel + 1) fuel m
      (evalArgs (calls ctx.program fuel) env args >>= calls ctx.program fuel name)
      (ResultGiven image act s s' m typed) := by
  simp only [lowerExpr, lowerExprWith, run_bind_ok] at run
  obtain ⟨typeds, s₁, lowers, called⟩ := run
  obtain ⟨emits, usable⟩ := lowerArgsWith_yields ready lowers
  obtain ⟨emits', -⟩ := callNamed_yields emits.ready usable called
  have solid := callNamed_solid core (emits.scope ▸ holds) called
  refine (args_simulate each ready lowers solid same (emits'.grows.trans grows) here holds).bind ?_
  rintro data m₁ - ⟨types, moves, values⟩
  have holds₁ : EnvHolds act m₁.store.memory ctx s₁.scope env := emits.scope ▸ holds.kept moves.kept
  refine (callNamed_simulates core fns emits.ready called same grows moves.here holds₁ types values).mono ?_
  rintro (_ | datum) m' - given
  · exact ⟨given.1, moves.trans given.2 emits.registers⟩
  · exact ⟨given.1, given.2.after emits.registers moves⟩

theorem not_computes (below : Computed image depth fuel home params ctx val)
    (ready : Ready params s) (run : (lowerExpr ctx (.not mark val)).run s = .ok (typed, s')) :
    Computes image depth fuel home ctx (.not mark val) s typed s' := by
  simp only [lowerExpr, lowerExprWith, run_bind_ok, build_ok, run_pure_ok] at run
  obtain ⟨inner, s₁, lowers, cond, s₂, tests, _, _, ⟨rfl, rfl⟩, rfl, rfl⟩ := run
  obtain ⟨first, usable⟩ := lowerExpr_yields ready lowers
  obtain ⟨second, -⟩ := truth_yields first.ready usable tests
  have third : s₂.builder.Grows (s₂.built (.binary .xor cond (.bool true))).builder :=
    Builder.grows_appended second.ready.here
  intro _ act m env same grows here holds
  refine (below ready lowers (truth_solid core tests) same
    ((second.grows.trans third).trans grows) here holds).bind ?_
  rintro datum m₁ - ⟨ty, gives⟩
  obtain ⟨n, m₂, reach, tested⟩ := truth_gives core gives.moves.here first.ready.inside ty gives.holds tests
    (third.trans grows)
  obtain ⟨k, m₃, reach', negated⟩ := gives_emit depth tested.moves.here second.ready.inside grows (by simp) rfl
    (show cond.type = .int (Datum.ofBool (! datum.isTrue)).scalar.bits from tested.holds.type) fun rest =>
      Machine.perform_binary (tested.holds.eval _ (.behind _ _ rest) m₂.store) rfl
        (by rw [tested.holds.type]; exact not_residue datum.isTrue)
  exact .step (reach.trans reach') (.ok ⟨rfl, (negated.after second.registers tested.moves).after first.registers
    gives.moves⟩)

theorem cast_computes {tgt : Scalar} (below : Computed image depth fuel home params ctx val)
    (ready : Ready params s)
    (run : (lowerExpr ctx (.cast mark tgt.type val)).run s = .ok (typed, s')) :
    Computes image depth fuel home ctx (.cast mark tgt.type val) s typed s' := by
  simp only [lowerExpr, lowerExprWith, run_bind_ok, run_pure_ok] at run
  obtain ⟨inner, s₁, lowers, _, _, converts, rfl, rfl⟩ := run
  obtain ⟨first, usable⟩ := lowerExpr_yields ready lowers
  obtain ⟨second, -⟩ := convert_yields first.ready usable converts
  intro _ act m env same grows here holds
  rw [evalExpr, Scalar.ofType?_type]
  refine (below ready lowers (convert_solid core converts) same (second.grows.trans grows) here holds).bind ?_
  rintro datum m₁ - ⟨ty, gives⟩
  obtain ⟨n, m₂, reach, given⟩ := convert_gives core gives.moves.here first.ready.inside ty gives.holds converts grows
  exact .step reach (.ok ⟨by cases tgt <;> rfl, given.after first.registers gives.moves⟩)

theorem logical_computes (logical : logical? op = some instr)
    (below : Computed image depth fuel home params ctx left)
    (below' : Computed image depth fuel home params ctx right) (ready : Ready params s)
    (run : (lowerExpr ctx (.binary mark op left right)).run s = .ok (typed, s')) :
    Computes image depth fuel home ctx (.binary mark op left right) s typed s' := by
  simp only [lowerExpr, lowerExprWith, logical, run_bind_ok, build_ok, run_pure_ok] at run
  obtain ⟨_, s₁, lowersLeft, a, s₂, testsLeft, _, s₃, lowersRight, b, s₄, testsRight, _, _,
      ⟨rfl, rfl⟩, rfl, rfl⟩ := run
  obtain ⟨first, usable⟩ := lowerExpr_yields ready lowersLeft
  obtain ⟨second, -⟩ := truth_yields first.ready usable testsLeft
  obtain ⟨third, usable'⟩ := lowerExpr_yields second.ready lowersRight
  obtain ⟨fourth, -⟩ := truth_yields third.ready usable' testsRight
  have fifth : s₄.builder.Grows (s₄.built (.binary instr a b)).builder :=
    Builder.grows_appended fourth.ready.here
  intro _ act m env same grows here holds
  have last := fifth.trans grows
  have more := third.grows.trans (fourth.grows.trans last)
  refine (below ready lowersLeft (truth_solid core testsLeft) same (second.grows.trans more) here holds).bind ?_
  rintro x m₁ - ⟨xType, gives₁⟩
  obtain ⟨_, m₂, reach₂, gives₂⟩ :=
    truth_gives core gives₁.moves.here first.ready.inside xType gives₁.holds testsLeft more
  refine .step reach₂ ?_
  have moves₂ := gives₁.moves.trans gives₂.moves first.registers
  have holds₂ : EnvHolds act m₂.store.memory ctx s₂.scope env := by
    rw [second.scope, first.scope]
    exact holds.kept moves₂.kept
  refine (below' second.ready lowersRight (truth_solid core testsRight) same
    (fourth.grows.trans last) gives₂.moves.here
    holds₂).bind ?_
  rintro y m₃ - ⟨yType, gives₃⟩
  obtain ⟨_, m₄, reach₄, gives₄⟩ :=
    truth_gives core gives₃.moves.here third.ready.inside yType gives₃.holds testsRight last
  have moves₄ := gives₃.moves.trans gives₄.moves third.registers
  have leftHolds := gives₂.holds.mono moves₄.agrees (Nat.le_trans third.registers fourth.registers)
  obtain ⟨outcome, val, computes⟩ := logical_residue logical x y
  obtain ⟨_, m₅, reach₅, gives₅⟩ := gives_emit depth gives₄.moves.here fourth.ready.inside grows (by simp) rfl
    (show a.type = .int (Datum.ofBool outcome).scalar.bits from leftHolds.type) fun rest =>
      Machine.perform_binary (leftHolds.eval _ (.behind _ _ rest) m₄.store)
        (gives₄.holds.eval _ (.behind _ _ rest) m₄.store) (by rw [leftHolds.type]; exact computes)
  rw [val]
  exact .step (reach₄.trans reach₅)
    (.ok ⟨rfl, (gives₅.after (Nat.le_trans third.registers fourth.registers) moves₄).after
    (Nat.le_trans first.registers second.registers) moves₂⟩)

theorem operation_computes (plain : logical? op = none)
    (below : Computed image depth fuel home params ctx left)
    (below' : Computed image depth fuel home params ctx right) (ready : Ready params s)
    (run : (lowerExpr ctx (.binary mark op left right)).run s = .ok (typed, s')) :
    Computes image depth fuel home ctx (.binary mark op left right) s typed s' := by
  simp only [lowerExpr, lowerExprWith, plain, run_bind_ok] at run
  obtain ⟨a, s₁, lowersLeft, b, s₂, lowersRight, operated⟩ := run
  obtain ⟨first, usable⟩ := lowerExpr_yields ready lowersLeft
  obtain ⟨second, usable'⟩ := lowerExpr_yields first.ready lowersRight
  obtain ⟨third, -⟩ := lowerOperation_yields second.ready (second.usable usable) usable' operated
  obtain ⟨_, _, joins, -⟩ := lowerOperation_ok operated
  obtain ⟨solid, solid'⟩ := join_solid core.aliases _ joins
  intro _ act m env same grows here holds
  have more := third.grows.trans grows
  refine (below ready lowersLeft solid same (second.grows.trans more) here holds).bind ?_
  rintro x m₁ - ⟨xType, gives₁⟩
  have holds₁ : EnvHolds act m₁.store.memory ctx s₁.scope env := first.scope ▸ holds.kept gives₁.moves.kept
  refine (below' first.ready lowersRight solid' same more gives₁.moves.here holds₁).bind ?_
  rintro y m₂ - ⟨yType, gives₂⟩
  have moves := gives₁.moves.trans gives₂.moves first.registers
  refine (operation_simulates core gives₂.moves.here second.ready.inside xType
    (gives₁.holds.mono gives₂.moves.agrees second.registers) yType gives₂.holds operated grows).mono ?_
  rintro datum m₃ - ⟨ty, gives₃⟩
  exact ⟨ty, gives₃.after (Nat.le_trans first.registers second.registers) moves⟩

/-- Code of every expression of the core computes its value, if the functions it calls do. -/
theorem expr_computed (fns : FunctionsRun image depth home ctx.program fuel)
    (expr : Expr) : isCoreExpr expr → Computed image depth fuel home params ctx expr := by
  induction expr using Expr.induct with
  | step expr ih =>
  intro inCore s s' typed ready run
  cases expr with
  | literal mark literal => exact literal_computes inCore run
  | name mark name => exact name_computes core ready run
  | call mark scope name args =>
    cases scope with
    | some scope => contradiction
    | none =>
      have each := areCoreExprs_mem (by simpa [isCoreExpr] using inCore)
      intro solid act m env same grows here holds
      rw [evalExpr, ← bind_assoc]
      refine (call_simulates core fns (fun arg mem => ih arg (by simp [Expr.children, mem]) (each arg mem)) ready
        run same grows here holds).bind ?_
      rintro (_ | datum) m' - given
      · exact absurd given.1 solid
      · exact .ok given
  | not mark val => exact not_computes core (ih val (.head _) inCore) ready run
  | cast mark tgt val =>
    rw [isCoreExpr, Bool.and_eq_true, Option.isSome_iff_exists] at inCore
    obtain ⟨⟨scalar, found⟩, inCore⟩ := inCore
    obtain rfl := Scalar.ofType?_eq_some.mp found
    exact cast_computes core (ih val (.head _) inCore) ready run
  | binary mark op left right =>
    rw [isCoreExpr, Bool.and_eq_true] at inCore
    have first := @ih left (.head _) inCore.1
    have second := @ih right (.tail _ (.head _)) inCore.2
    cases logical : logical? op with
    | some instr => exact logical_computes core logical first second ready run
    | none => exact operation_computes core logical first second ready run
  | addressOf | load | index | member | method | function | sizeOf | allocate | allocateMany | array | constant
  | qualified => contradiction

end

end Core
end TernLang
