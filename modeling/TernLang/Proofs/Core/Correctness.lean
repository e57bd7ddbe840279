import TernLang.Proofs.Core.FunctionSimulation
import TernLang.Proofs.Core.Symbols

/-! Lowering keeps the meaning of programs of the core. Whatever limits a run has, it gives what
the source means or stops at a limit; and if the source has an answer, enough steps give it. -/
namespace TernLang.Core

open Lowering (Defines allFunctions functionType_count functionType_ok lower_defines lowerFunction_ssaGraph)
open Machine (Calm Fault Frame Image Limits Linked Outcome Reach Store regionLimit)

def exitCode : Option Datum → Int
  | some datum => datum.value.bmod (twoPow datum.scalar.bits)
  | none => 0

/-- The source gives this answer if calls and turns are counted far enough. -/
def Answers (prog : Program) (fn : Function) (args : List Datum)
    (answer : Except Stop (Option Datum)) : Prop :=
  ∃ fuel, callFunction prog fuel fn args = answer

/-- What a run may give: an answer of the source, or a limit. -/
inductive Permitted (prog : Program) (fn : Function) (args : List Datum) (limits : Limits)
    (output : List UInt8) : Except Fault Outcome → Prop
  | value {res : Option Datum} (means : Answers prog fn args (.ok res)) :
    Permitted prog fn args limits output (.ok ⟨exitCode res, output⟩)
  | division (means : Answers prog fn args (.error .divisionByZero)) :
    Permitted prog fn args limits output (.error .divisionByZero)
  | steps : Permitted prog fn args limits output (.error (.stepLimit limits.steps))
  | depth (sym : String) :
    Permitted prog fn args limits output (.error (.callDepth limits.depth sym))

/-- Enough steps give the answer of the source. A program that lowering accepts is well formed. -/
def Settled (image : Image) (depth : Nat) (ty : IrType) (start : Machine.State) : Except Stop (Option Datum) → Prop
  | .ok res => ∃ n, ∀ steps > n, Machine.run image { steps, depth } ty steps start =
      .ok ⟨exitCode res, start.store.output.reverse⟩
  | .error .divisionByZero => ∃ n, ∀ steps > n, Machine.run image { steps, depth } ty steps start =
      .error .divisionByZero
  | .error .outOfFuel => True
  | .error .illFormed => False

/-- Within so many steps there are more regions than addresses. -/
def Exhausts (image : Image) (depth steps : Nat) (start : Machine.State) : Prop :=
  ∃ n ≤ steps, ∃ m, Reach image depth n start m ∧ regionLimit < m.store.memory.count

theorem Exhausts.lt (exhausts : Exhausts image depth steps start) :
    regionLimit < start.store.memory.count + steps := by
  obtain ⟨n, le, m, reach, full⟩ := exhausts
  have count := reach.count_le
  omega

theorem exitCode_resultSlot {prog : Program} (plain : prog.aliases = [])
    (typed : ResultTyped fn res) {ty : IrType} (lowered : prog.irType loc fn.result = .ok ty) :
    Machine.exitCode ty (resultSlot res) = exitCode res := by
  cases res with
  | none => rfl
  | some datum =>
    rw [typed, irType_scalar plain] at lowered
    cases lowered
    rw [exitCode, show Machine.exitCode (.int datum.scalar.bits) (resultSlot (some datum)) =
      Word.signed datum.word datum.scalar.bits from rfl, Word.signed_eq datum.scalar.bits_le datum.scalar.bits_pos,
      datum.low_word, BitVec.toInt_ofInt]
    rfl

section
variable {image : Image} {prog : Program} {fn : Function} {args : List Datum}
  {start : Machine.State} {ty : IrType} {loc : Location}

theorem Returns.run (limits : Limits) {n : Nat} (plain : prog.aliases = [])
    (lowered : prog.irType loc fn.result = .ok ty) (reach : Reach image limits.depth n start m)
    (returns : Returns image limits.depth fn [] start.store res m) (k : Nat) :
    Machine.run image limits ty k start = if k ≤ n then .error (.stepLimit limits.steps)
      else .ok ⟨exitCode res, start.store.output.reverse⟩ := by
  obtain ⟨memory, returned, -⟩ := returns.next
  rw [reach.run_returned limits returns.calm returned, exitCode_resultSlot plain returns.typed lowered]

/-- A run of a function that follows the source, with fuel for all its steps. -/
theorem Simulates.permitted (plain : prog.aliases = [])
    (lowered : prog.irType loc fn.result = .ok ty)
    (simulates : Simulates image limits.depth bound (limits.steps + 1) start
      (callFunction prog (limits.steps + 1) fn args)
      (Returns image limits.depth fn [] start.store)) :
    Exhausts image limits.depth limits.steps start ∨
      Permitted prog fn args limits start.store.output.reverse
        (Machine.run image limits ty limits.steps start) := by
  rcases simulates with (⟨n, m, reach, full⟩ | ⟨n, m, sym, reach, calm, faults, -⟩) | follows
  · rcases Nat.lt_or_ge limits.steps n with few | enough
    · rw [reach.run_limit ty few]
      exact .inr .steps
    · exact .inl ⟨n, enough, m, reach, full⟩
  · rw [reach.run_fault limits calm faults]
    split
    · exact .inr .steps
    · exact .inr (.depth sym)
  · refine .inr ?_
    cases answer : callFunction prog (limits.steps + 1) fn args with
    | ok res =>
      rw [answer] at follows
      obtain ⟨n, m, reach, returns⟩ := follows
      rw [returns.run limits plain lowered reach]
      split
      · exact .steps
      · exact .value ⟨_, answer⟩
    | error stop =>
      rw [answer] at follows
      cases stop with
      | illFormed => exact follows.elim
      | divisionByZero =>
        obtain ⟨n, m, reach, calm, faults⟩ := follows
        rw [reach.run_fault limits calm faults]
        split
        · exact .steps
        · exact .division ⟨_, answer⟩
      | outOfFuel =>
        obtain ⟨n, m, enough, reach⟩ := follows
        rw [reach.run_limit ty enough]
        exact .steps

/-- A function that has an answer, with room for all its calls. -/
theorem Simulates.settled (plain : prog.aliases = []) (lowered : prog.irType loc fn.result = .ok ty)
    (shallow : bound < depth)
    (simulates : Simulates image depth bound fuel start (callFunction prog fuel fn args)
      (Returns image depth fn [] start.store)) :
    (∃ n, Exhausts image depth n start) ∨
      Settled image depth ty start (callFunction prog fuel fn args) := by
  rcases simulates with (⟨n, m, reach, full⟩ | ⟨_, _, _, _, _, _, deep⟩) | follows
  · exact .inl ⟨n, n, Nat.le_refl n, m, reach, full⟩
  · omega
  · refine .inr ?_
    cases answer : callFunction prog fuel fn args with
    | ok res =>
      rw [answer] at follows
      obtain ⟨n, m, reach, returns⟩ := follows
      refine ⟨n, fun steps more => ?_⟩
      rw [returns.run { steps, depth } plain lowered reach, if_neg (by omega)]
    | error stop =>
      rw [answer] at follows
      cases stop with
      | illFormed => exact follows
      | divisionByZero =>
        obtain ⟨n, m, reach, calm, faults⟩ := follows
        refine ⟨n, fun steps more => ?_⟩
        rw [reach.run_fault { steps, depth } calm faults, if_neg (by omega)]
      | outOfFuel => trivial

end

theorem allFunctions_core (core : IsCore prog) :
    allFunctions prog = prog.functions.map (·, none) := by
  simp [allFunctions, core.classes]

theorem lower_defines_core (core : IsCore prog) (named : WellNamed prog)
    (lowered : prog.lower workers = .ok mod) :
    ∀ fn ∈ prog.functions, Defines prog mod fn none := by
  intro fn known
  refine lower_defines lowered ?_ ?_ (coreFunction (core.functions fn known)).own
  · rw [allFunctions_core core, List.map_map]
    exact symbols_nodup core named
  · rw [allFunctions_core core]
    exact List.mem_map.mpr ⟨fn, known, rfl⟩

/-- A function of a program of the core, called with arguments of its types: a run under any limits
gives an answer of the source or stops at a limit, and an answer of the source is what a run with
enough steps gives, unless regions outnumber addresses. -/
theorem lower_keeps_meaning {prog : Program} {mod : Ir.Module} {workers : Nat} (core : IsCore prog)
    (named : WellNamed prog) (lowered : prog.lower workers = .ok mod) {fn : Function}
    (known : fn ∈ prog.functions) {args : List Datum}
    (types : fn.paramTypes = args.map (·.scalar.type)) {home : Linked} (same : home.module = mod) :
    ∃ body frame, home.definition? (Signature.ofFunction fn none).symbol = some body ∧
      Frame.enter? home body (args.map Datum.slot) = some frame ∧
      ∀ (image : Image) (store : Store),
        (∀ limits : Limits, Exhausts image limits.depth limits.steps { frame, store } ∨
          Permitted prog fn args limits store.output.reverse
            (Machine.run image limits body.type.result limits.steps { frame, store })) ∧
        ∀ fuel depth, fuel < depth → (∃ n, Exhausts image depth n { frame, store }) ∨
          Settled image depth body.type.result { frame, store } (callFunction prog fuel fn args) :=
            by
  have compiled := lower_defines_core core named lowered
  rw [← same] at compiled
  obtain ⟨before, ty, final, typed, run, found⟩ := compiled fn known
  obtain ⟨graph, -, -, bodyType, -⟩ := lowerFunction_ssaGraph rfl rfl (functionType_count typed) run
  have res := (functionType_ok typed).2.1
  rw [← bodyType] at res
  have defined := definition?_eq found graph
  obtain ⟨frame, entered⟩ := exists_enter? graph home (args.map Datum.slot)
  refine ⟨_, frame, defined, entered, fun image store => ?_⟩
  rcases Nat.lt_or_ge regionLimit store.memory.count with full | small
  · exact ⟨fun limits => .inl ⟨0, Nat.zero_le _, _, .here _, full⟩,
      fun _ _ _ => .inl ⟨0, 0, Nat.le_refl 0, _, .here _, full⟩⟩
  · have simulates : ∀ depth fuel, Simulates image depth fuel fuel { frame, store } (callFunction prog fuel fn args)
        (Returns image depth fn [] store) := by
      intro depth fuel
      obtain ⟨body, definition, runs⟩ := functions_run core compiled fuel fn known args types
      obtain rfl := Option.some.inj (defined.symm.trans definition)
      obtain ⟨frame', enters, simulates⟩ := runs [] store ⟨[], rfl, .nil, by simp⟩ small
      obtain rfl := Option.some.inj (entered.symm.trans enters)
      rwa [List.length_nil, Nat.zero_add] at simulates
    exact ⟨fun limits => (simulates limits.depth (limits.steps + 1)).permitted core.aliases res,
      fun fuel depth shallow => (simulates depth fuel).settled core.aliases res shallow⟩

/-- The sum of the squares up to a number, by a call in a loop. -/
def squares : Program where
  file := ⟨"squares.tn"⟩
  functions := [
    { name := "square"
      params := [⟨"n", .named "int"⟩]
      result := .named "int"
      body := [.leave 2 (some (.binary ⟨0, 2⟩ .multiply (.name ⟨1, 2⟩ "n") (.name ⟨2, 2⟩ "n")))]
      isPublic := false
      isStatic := false
      isStdcall := false
      isVariadic := false
      classOffset := 0
      line := 1
      origin := ⟨"squares.tn"⟩ },
    { name := "main"
      params := [⟨"n", .named "int"⟩]
      result := .named "int"
      body := [
        .declare 5 "total" (.named "int"),
        .loop 6 .whenTrue (.name ⟨3, 6⟩ "n") [
          .assign 7 (.name ⟨4, 7⟩ "total")
            (.binary ⟨5, 7⟩ .add (.name ⟨6, 7⟩ "total") (.call ⟨7, 7⟩ none "square" [.name ⟨8, 7⟩ "n"])),
          .assign 8 (.name ⟨9, 8⟩ "n")
            (.binary ⟨10, 8⟩ .subtract (.name ⟨11, 8⟩ "n") (.literal ⟨12, 8⟩ (.integer .int 1)))],
        .leave 10 (some (.name ⟨13, 10⟩ "total"))]
      isPublic := true
      isStatic := false
      isStdcall := false
      isVariadic := false
      classOffset := 0
      line := 4
      origin := ⟨"squares.tn"⟩ }]

theorem squares_isCore : IsCore squares where
  structures := rfl
  classes := rfl
  externals := rfl
  globals := rfl
  constants := rfl
  aliases := rfl
  enums := rfl
  functions := by decide +kernel

theorem squares_wellNamed : WellNamed squares where
  plain := by decide +kernel
  distinct := by decide +kernel
  entry := by decide +kernel

theorem squares_lowers : Lowering.hasBody "main" (squares.lower 1) = true := by decide +kernel

/-- The last function, called with three, sums to fourteen under the usual limits or stops at one.
-/
theorem squares_keeps_meaning : ∃ mod body frame fn, squares.lower 1 = .ok mod ∧
    squares.functions[1]? = some fn ∧
    ({ module := mod } : Linked).definition? "main" = some body ∧
    Frame.enter? { module := mod } body [.int 3] = some frame ∧
    callFunction squares 9 fn [.of (.integer .int) 3] = .ok (some (.of (.integer .int) 14)) ∧
    Permitted squares fn [.of (.integer .int) 3] {} []
      (Machine.run ⟨[]⟩ {} body.type.result 50000000 { frame, store := {} }) := by
  obtain ⟨mod, _, lowered, -⟩ := Lowering.exists_body squares_lowers
  have known : squares.functions[1] ∈ squares.functions := List.getElem_mem _
  have types : squares.functions[1].paramTypes = [Datum.of (.integer .int) 3].map (·.scalar.type) := rfl
  have same : ({ module := mod } : Linked).module = mod := rfl
  obtain ⟨body, frame, defined, entered, runs⟩ :=
    lower_keeps_meaning squares_isCore squares_wellNamed lowered known types same
  refine ⟨mod, body, frame, _, lowered, rfl, defined, entered, by decide +kernel, ?_⟩
  refine ((runs ⟨[]⟩ {}).1 {}).resolve_left fun exhausts => ?_
  have more : regionLimit < 0 + 50000000 := exhausts.lt
  exact absurd more (by decide +kernel)

end TernLang.Core
