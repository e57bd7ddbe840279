import TernLang.Proofs.Core.Words
import TernLang.Proofs.Typing.Overload

/-! Types of the core as lowering sees them: no name is an alias, types join only with
themselves, and a call means the first function with exactly the arguments' types. -/
namespace TernLang.Core

open Success Signature List

/-- A program of functions only, all of them in the core. -/
structure IsCore (prog : Program) : Prop where
  structures : prog.structures = []
  classes : prog.classes = []
  externals : prog.externals = []
  globals : prog.globals = []
  constants : prog.constants = []
  aliases : prog.aliases = []
  enums : prog.enums = []
  functions : ∀ fn ∈ prog.functions, isCoreFunction fn

namespace Scalar

theorem mem_all (scalar : Scalar) : scalar ∈ all := by
  rcases scalar with _ | kind | _
  · decide
  · cases kind <;> decide
  · decide

theorem type_injective {a b : Scalar} (same : a.type = b.type) : a = b := by
  have distinct : ∀ a ∈ all, ∀ b ∈ all, a.type = b.type → a = b := by decide
  exact distinct a a.mem_all b b.mem_all same

theorem ofType?_eq_some {ty : TypeName} : ofType? ty = some scalar ↔ ty = scalar.type := by
  constructor
  · intro found
    simpa [eq_comm] using find?_some found
  · rintro rfl
    have first : ∀ scalar ∈ all, ofType? scalar.type = some scalar := by decide
    exact first scalar scalar.mem_all

@[simp] theorem ofType?_type (scalar : Scalar) : ofType? scalar.type = some scalar :=
  ofType?_eq_some.mpr rfl

theorem type_ne_void (scalar : Scalar) : scalar.type ≠ .void := by
  have solid : ∀ scalar ∈ all, scalar.type ≠ .void := by decide
  exact solid scalar scalar.mem_all

theorem ofName?_primitive (scalar : Scalar) :
    Primitive.ofName? scalar.primitive.name = some scalar.primitive := by
  have known : ∀ scalar ∈ all, Primitive.ofName? scalar.primitive.name = some scalar.primitive := by decide
  exact known scalar scalar.mem_all

theorem not_isGenericPointer (scalar : Scalar) : scalar.type.isGenericPointer = false := by
  have plain : ∀ scalar ∈ all, scalar.type.isGenericPointer = false := by decide
  exact plain scalar scalar.mem_all

end Scalar

variable {prog : Program} (plain : prog.aliases = []) (loc : Location) {cond : Condition}

include plain

theorem resolve_scalar (scalar : Scalar) : prog.resolve loc scalar.type = .ok scalar.type :=
  Program.resolve_plain (by simp [Program.alias?, plain])

theorem resolve_void : prog.resolve loc .void = .ok .void :=
  Program.resolve_plain (by simp [Program.alias?, plain])

theorem classify_scalar (scalar : Scalar) :
    prog.classify loc scalar.type = .ok scalar.typeClass := by
  rw [Program.classify, resolve_scalar plain]
  change prog.classifyResolved loc scalar.type (.named scalar.primitive.name) = _
  rw [Program.classifyResolved, Program.classifyName?, scalar.ofName?_primitive]
  rfl

theorem irType_scalar (scalar : Scalar) : prog.irType loc scalar.type = .ok (.int scalar.bits) := by
  rw [Program.irType, classify_scalar plain]
  exact congrArg Except.ok scalar.irType_typeClass

theorem classify_void : prog.classify loc .void = .ok .void := by
  rw [Program.classify, resolve_void plain]
  rfl

theorem irType_void : prog.irType loc .void = .ok .void := by
  rw [Program.irType, classify_void plain]
  rfl

theorem join_scalar (a b : Scalar) :
    prog.join loc a.type b.type = .ok (if a = b then some a.type else none) := by
  rw [Program.join, resolve_scalar plain, resolve_scalar plain]
  simp only [bind, Except.bind, pure, Except.pure, TypeName.join?, a.type_ne_void, b.type_ne_void, or_self, if_false,
    a.not_isGenericPointer, b.not_isGenericPointer, Bool.false_and, Bool.false_eq_true]
  by_cases same : a = b
  · rw [if_pos (congrArg _ same), if_pos same]
  · rw [if_neg fun types => same (Scalar.type_injective types), if_neg same]

theorem joinInto_scalar {a b : Scalar} {joined : TypeName}
    (joins : prog.joinInto loc a.type b.type = .ok (some joined)) : a = b := by
  rw [Program.joinInto, join_scalar plain] at joins
  by_contra ne
  rw [if_neg ne] at joins
  simp [bind, Except.bind, pure, Except.pure] at joins

theorem condition_scalar {scalar : Scalar} (tested : prog.condition loc scalar.type = .ok cond) :
    scalar = .bool ∧ cond = .bool ∨ ∃ kind, scalar = .integer kind ∧ cond = .notZero kind := by
  simp only [Program.condition, Program.primitive?, resolve_scalar plain, bind, Except.bind, pure,
    Except.pure] at tested
  rw [show scalar.type.bareName? = some scalar.primitive.name from rfl, Option.bind_some,
    scalar.ofName?_primitive] at tested
  cases scalar with
  | bool =>
    cases tested
    exact .inl ⟨rfl, rfl⟩
  | integer kind =>
    cases tested
    exact .inr ⟨kind, rfl, rfl⟩
  | usize => contradiction

theorem join_solid {a b joined : TypeName} (joins : prog.join loc a b = .ok (some joined)) :
    a ≠ .void ∧ b ≠ .void := by
  simp only [Program.join, bind_ok, pure_ok, TypeName.join?] at joins
  obtain ⟨left, first, right, second, joins⟩ := joins
  split at joins
  · contradiction
  · next solid =>
    rw [not_or] at solid
    refine ⟨?_, ?_⟩
    · rintro rfl
      rw [resolve_void plain] at first
      exact solid.1 (Except.ok.inj first).symm
    · rintro rfl
      rw [resolve_void plain] at second
      exact solid.2 (Except.ok.inj second).symm

theorem joinInto_solid {a b joined : TypeName} (joins : prog.joinInto loc a b = .ok (some joined)) :
    a ≠ .void := by
  simp only [Program.joinInto, bind_ok, pure_ok, Option.map_eq_some_iff] at joins
  obtain ⟨_, joins, found, rfl, -⟩ := joins
  exact (join_solid plain loc joins).1

theorem condition_solid {ty : TypeName}
    (tested : prog.condition loc ty = .ok cond) : ty ≠ .void := by
  rintro rfl
  simp only [Program.condition, Program.primitive?, resolve_void plain, bind, Except.bind, pure,
    Except.pure] at tested
  contradiction

theorem pairsJoin_scalar (args params : List Scalar) (count : args.length = params.length) :
    prog.pairsJoin loc (args.map Scalar.type) (params.map Scalar.type) =
      .ok (decide (args = params)) := by
  induction args generalizing params with
  | nil =>
    cases params with
    | nil => rfl
    | cons => contradiction
  | cons arg args ih =>
    cases params with
    | nil => contradiction
    | cons param params =>
      rw [map_cons, map_cons, Program.pairsJoin, Program.joinInto, join_scalar plain]
      by_cases same : arg = param
      · subst same
        simp only [if_true, bind, Except.bind, pure, Except.pure, Option.map_some, Option.isSome_some,
          ih params (Nat.succ.inj count), cons.injEq, true_and]
      · simp [same, bind, Except.bind, pure, Except.pure]

omit plain

/-- What the test for a function of the core says. -/
structure CoreFunction (fn : Function) : Prop where
  own : fn.isExternal = false
  fixed : fn.isVariadic = false
  params : ∀ param ∈ fn.params, ∃ scalar : Scalar, param.type = scalar.type
  result : fn.result = .void ∨ ∃ scalar : Scalar, fn.result = scalar.type
  body : areCoreStmts fn.body

variable {fn : Function}

theorem coreFunction (core : isCoreFunction fn) : CoreFunction fn := by
  simp only [isCoreFunction, Bool.and_eq_true, Bool.not_eq_true', Bool.or_eq_true, decide_eq_true_eq,
    all_eq_true, Option.isSome_iff_exists, Scalar.ofType?_eq_some] at core
  obtain ⟨⟨⟨⟨⟨own, fixed⟩, -⟩, params⟩, res⟩, body⟩ := core
  exact ⟨own, fixed, params, res, body⟩

theorem paramTypes_core (core : isCoreFunction fn) :
    ∃ params : List Scalar, fn.paramTypes = params.map Scalar.type := by
  have scalars := (coreFunction core).params
  rw [Function.paramTypes]
  generalize fn.params = fields at scalars
  induction fields with
  | nil => exact ⟨[], rfl⟩
  | cons field fields ih =>
    obtain ⟨⟨scalar, same⟩, scalars⟩ := forall_mem_cons.mp scalars
    obtain ⟨rest, others⟩ := ih scalars
    exact ⟨scalar :: rest, by rw [map_cons, map_cons, others, same]⟩

theorem ofFunction_core (core : isCoreFunction fn) :
    (ofFunction fn none).params = fn.paramTypes ∧
      (ofFunction fn none).variadic = .none := by
  simp [ofFunction, Function.tail?, (coreFunction core).fixed]

include plain

theorem accepts_core (core : isCoreFunction fn) (args : List Datum) :
    prog.accepts loc (args.map (·.scalar.type)) (ofFunction fn none) =
      .ok (decide (fn.paramTypes = args.map (·.scalar.type))) := by
  obtain ⟨params, fixed⟩ := ofFunction_core core
  obtain ⟨scalars, types⟩ := paramTypes_core core
  have given : args.map (·.scalar.type) = (args.map (·.scalar)).map Scalar.type := by rw [map_map]; rfl
  have same : scalars.map Scalar.type = (args.map (·.scalar)).map Scalar.type ↔ args.map (·.scalar) = scalars := by
    rw [map_inj_right fun _ _ => Scalar.type_injective]
    exact eq_comm
  simp only [Program.accepts, isVariadic, fixed, params, types, given, same, length_map]
  by_cases count : args.length = scalars.length
  · have joins := pairsJoin_scalar plain loc (args.map (·.scalar)) scalars (by rwa [length_map])
    rw [joins]
    by_cases equal : args.map (·.scalar) = scalars <;>
      simp [count, equal, bind, Except.bind, pure, Except.pure]
  · have differ : args.map (·.scalar) ≠ scalars := fun equal => count (by rw [← equal, length_map])
    simp [count, differ, pure, Except.pure]

/-- A call means the first function of its name with exactly the arguments' types. -/
theorem firstAccepting_core {fns : List Function} (core : ∀ fn ∈ fns, isCoreFunction fn)
    (args : List Datum) :
    prog.firstAccepting loc (args.map (·.scalar.type)) (fns.map (ofFunction · none)) =
      .ok ((fns.find? fun f => f.paramTypes = args.map (·.scalar.type)).map (ofFunction · none)) :=
        by
  induction fns with
  | nil => rfl
  | cons fn fns ih =>
    obtain ⟨first, others⟩ := forall_mem_cons.mp core
    rw [map_cons, Program.firstAccepting, accepts_core plain loc first, find?_cons]
    by_cases fits : fn.paramTypes = args.map (·.scalar.type)
    · simp [fits, bind, Except.bind, pure, Except.pure]
    · simp only [fits, decide_false, bind, Except.bind, Bool.false_eq_true, if_false]
      exact ih others

omit plain

theorem findCallable_solid (core : IsCore prog) {name : String} {args : List TypeName}
    (found : prog.findCallable loc name args = .ok (some sig)) :
    (∃ fn ∈ prog.functions, sig = ofFunction fn none) ∧ ∀ arg ∈ args, arg ≠ .void := by
  have chosen := Program.choose_ok found
  have mem := chosen.mem
  obtain ⟨count, joins, -⟩ := chosen.accepted _ rfl
  rw [Program.callablesNamed, core.externals, filter_nil, map_nil, append_nil] at mem
  obtain ⟨fn, there, rfl⟩ := mem_map.mp mem
  have known := (mem_filter.mp there).1
  refine ⟨⟨fn, known, rfl⟩, fun arg given => ?_⟩
  rw [isVariadic, (ofFunction_core (core.functions fn known)).2] at count
  rw [← map_fst_zip (Nat.le_of_eq count)] at given
  obtain ⟨pair, paired, rfl⟩ := mem_map.mp given
  obtain ⟨_, joins⟩ := joins pair paired
  exact joinInto_solid core.aliases loc joins

theorem findCallable_core (core : IsCore prog) (name : String) (args : List Datum) :
    prog.findCallable loc name (args.map (·.scalar.type)) =
      .ok ((callee? prog name args).map (ofFunction · none)) := by
  have named : ∀ fn ∈ prog.functions.filter (·.name == name), isCoreFunction fn :=
    fun fn mem => core.functions fn (mem_filter.mp mem).1
  have fixed : ∀ sig ∈ (prog.functions.filter (·.name == name)).map (ofFunction · none),
      sig.isVariadic = false := by
    intro sig mem
    obtain ⟨fn, there, rfl⟩ := mem_map.mp mem
    rw [isVariadic, (ofFunction_core (named fn there)).2]
    rfl
  have first : ((prog.functions.filter (·.name == name)).map (ofFunction · none)).filter
      (! ·.isVariadic) = (prog.functions.filter (·.name == name)).map (ofFunction · none) :=
    filter_eq_self.mpr fun sig mem => by simp [fixed sig mem]
  have rest : ((prog.functions.filter (·.name == name)).map (ofFunction · none)).filter
      (·.isVariadic) = [] :=
    filter_eq_nil_iff.mpr fun sig mem => by simp [fixed sig mem]
  have found : callee? prog name args =
      (prog.functions.filter (·.name == name)).find? fun f => f.paramTypes = args.map (·.scalar.type) := by
    rw [callee?, find?_filter]
    congr 1
    funext fn
    simp
  rw [Program.findCallable, Program.callablesNamed, core.externals, filter_nil, map_nil, append_nil,
    Program.choose, first, rest, firstAccepting_core core.aliases loc named, found]
  cases (prog.functions.filter (·.name == name)).find? fun f => f.paramTypes = args.map (·.scalar.type) <;> rfl

end TernLang.Core
