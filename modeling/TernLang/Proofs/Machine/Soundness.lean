import TernLang.Proofs.Machine.Safety

/-! Well-typed modules do not go wrong. A run of a function returns a value of the declared type, or
it ends in a fault that depends on what the program computes. -/
namespace TernLang.Machine

open List
open Ir (Value Instruction defined)

/-- From a state, so many steps as it takes lead to a result. -/
inductive Returns (image : Image) (maxDepth : Nat) : State → Slot → Prop where
  | now {state : State} {val : Slot} {store : Store} :
    next image maxDepth state = .ok (.returned val, store) →
    Returns image maxDepth state val
  | later {state : State} {frame : Frame} {callers : List Caller} {store : Store} {val : Slot} :
    next image maxDepth state = .ok (.running frame callers, store) →
    Returns image maxDepth ⟨frame, callers, store⟩ val → Returns image maxDepth state val

def EntryReturns (mod : Ir.Module) (others : List Ir.Module) (entry : String) (maxDepth : Nat)
    (val : Slot) : Prop :=
  ∃ image memory home fn args frame, load (mod :: others) = .ok (image, memory) ∧
    image.modules.head?.bind (image.definition? · entry) = some (home, fn) ∧
    entryArguments home.module fn.type.params = .ok args ∧ Frame.enter? home fn args = some frame ∧
    Returns image maxDepth { frame, store := { memory } } val

/-- A module that may be linked beside others: its globals have storage, and it does not take the
place of the routines that manage memory. -/
structure LinksBeside (mod : Ir.Module) : Prop where
  structs : mod.Stratified
  globals : ∀ global ∈ mod.globals.values, global.initializer.isSome → mod.isSized global.type
  routines : ∀ sym ∈ ["malloc", "free"], mod.isDefined sym = false

theorem Safe.bind_of_ok {α β : Type} {post : α → Prop} {post' : β → Prop} {x : Except Fault α}
    {f : α → Except Fault β} (first : Safe post x)
    (next : ∀ val, x = .ok val → post val → Safe post' (f val)) :
    Safe post' (x >>= f) := by
  cases x with
  | ok val => exact next val rfl first
  | error cause => exact first

/-! Loading. -/

theorem loadGlobal_total {mod : Ir.Module} (structs : mod.Stratified) {ty : IrType}
    (sized : mod.isSized ty) (initializer : Ir.Initializer) (memory : Memory) :
    Total (loadGlobal mod ty initializer memory) := by
  obtain ⟨rank, ranked⟩ := structs
  obtain ⟨layout, laid⟩ := (ranked.solid sized).exists_layout
  have size : orFault (mod.size ty) = .ok layout.size := by
    rw [Ir.Module.size, Ir.Module.layout, laid]
    rfl
  rw [loadGlobal, size]
  refine (memory.allocate_total layout.size).bind fun allocated _ => ?_
  cases initializer with
  | zero => trivial
  | bytes bytes => exact (allocated.2.write_total allocated.1 bytes).bind fun _ _ => trivial

theorem loadGlobals_safe {mod : Ir.Module} (structs : mod.Stratified) {globals : List Ir.Global}
    (sized : ∀ global ∈ globals, global.initializer.isSome → mod.isSized global.type)
    (table : Table String UInt64) (memory : Memory) :
    Safe (fun loaded => (∀ name, (table.get? name).isSome → (loaded.1.get? name).isSome) ∧
      ∀ global ∈ globals, global.initializer.isSome → (loaded.1.get? global.name).isSome)
      (loadGlobals mod globals table memory) := by
  induction globals generalizing table memory with
  | nil => exact ⟨fun _ there => there, forall_mem_nil _⟩
  | cons global rest ih =>
    obtain ⟨here, later⟩ := forall_mem_cons.mp sized
    unfold loadGlobals
    split
    · next none =>
      refine (ih later table memory).mono fun loaded known => ⟨known.1, ?_⟩
      refine forall_mem_cons.mpr ⟨fun given => ?_, known.2⟩
      rw [none] at given
      contradiction
    · next initializer given =>
      refine (loadGlobal_total structs (here (by rw [given]; rfl)) initializer memory).bind fun made _ => ?_
      refine (ih later (table.insert global.name made.1) made.2).mono fun loaded known => ⟨fun name there => ?_, ?_⟩
      · refine known.1 name ?_
        rw [Table.get?_insert]
        split
        · rfl
        · exact there
      · refine forall_mem_cons.mpr ⟨fun _ => known.1 global.name ?_, known.2⟩
        rw [Table.get?_insert, if_pos rfl]
        rfl

theorem loadModules_safe {modules : List Ir.Module} (links : ∀ mod ∈ modules, LinksBeside mod)
    (memory : Memory) :
    Safe (fun loaded => loaded.1.map (·.module) = modules) (loadModules modules memory) := by
  induction modules generalizing memory with
  | nil => rfl
  | cons mod rest ih =>
    obtain ⟨here, later⟩ := forall_mem_cons.mp links
    refine (loadGlobals_safe here.structs here.globals .empty memory).bind fun loaded _ => ?_
    refine (ih later loaded.2).bind fun linked same => ?_
    exact congrArg (mod :: ·) same

variable {sym : String}

theorem definition?_eq_none {linked : Linked} (undefined : linked.module.isDefined sym = false) :
    linked.definition? sym = none := by
  unfold Ir.Module.isDefined at undefined
  unfold Linked.definition?
  cases found : linked.module.function? sym with
  | none => rfl
  | some fn =>
    rw [found] at undefined
    exact Option.filter_eq_none_iff.mpr fun _ same => by
      cases same
      simpa using undefined

/-- The module is hosted by the image it is loaded to. -/
theorem load_safe {mod : Ir.Module} (wellFormed : mod.WellFormed) {others : List Ir.Module}
    (links : ∀ other ∈ others, LinksBeside other) :
    Safe (fun loaded => ∃ home, loaded.1.modules.head? = some home ∧ Hosts mod loaded.1 home)
      (load (mod :: others)) := by
  unfold load loadModules
  have own := loadGlobals_safe wellFormed.structs (fun global mem _ => (wellFormed.globals global mem).1) .empty {}
  refine Safe.bind (own.bind fun (globals, memory) loaded =>
    (loadModules_safe links memory).bind fun (rest, memory) same => ?_) fun _ hosts => hosts
  refine ⟨⟨mod, globals⟩, rfl, rfl, fun name there => ?_, fun sym routine undefined => ?_⟩
  · obtain ⟨global, mem, named⟩ := any_eq_true.mp there
    have given := loaded.2 global mem (wellFormed.globals global mem).2
    rw [of_decide_eq_true named] at given
    exact Option.isSome_iff_exists.mp given
  · have missing : ∀ linked ∈ (⟨mod, globals⟩ :: rest : List Linked), linked.definition? sym = none := by
      refine forall_mem_cons.mpr ⟨definition?_eq_none undefined, fun linked mem => definition?_eq_none ?_⟩
      have other : linked.module ∈ others := same ▸ mem_map_of_mem mem
      exact (links linked.module other).routines sym routine
    rw [Image.definition?, missing _ mem_cons_self]
    refine findSome?_eq_none_iff.mpr fun linked mem => ?_
    rw [Linked.publicDefinition?, missing linked mem]
    rfl

theorem entryArguments_safe {mod : Ir.Module} {rank : String → Nat} (ranked : mod.Ranked rank)
    (spans : mod.Spans (· ≤ Ir.Shape.capacity)) {types : List IrType}
    (sized : ∀ ty ∈ types, mod.isSized ty)
    (lengths : ∀ ty ∈ types, ty.Lengths (· ≤ Ir.Shape.capacity)) :
    Safe (Forall₂ (fun ty slot => Holds (mod.shape ty) slot) types) (entryArguments mod types) := by
  induction types with
  | nil => exact .nil
  | cons ty types ih =>
    obtain ⟨here, later⟩ := forall_mem_cons.mp sized
    obtain ⟨short, shorter⟩ := forall_mem_cons.mp lengths
    obtain ⟨slot, zero, holds⟩ := zeroOf_holds (ranked.solid_of_spans spans here short)
    rw [entryArguments, zero]
    exact (ih later shorter).bind fun slots all => .cons holds all

/-! Running. -/

theorem isDynamic_unwind (frames : List Frame) (memory : Memory) {halt : Halt}
    (dynamic : halt.isDynamic) :
    (unwind frames memory halt).isDynamic := by
  induction frames generalizing memory halt with
  | nil => exact dynamic
  | cons frame frames ih =>
    have released := memory.releaseAll_total frame.slots
    unfold unwind
    cases release : memory.releaseAll frame.slots with
    | ok memory => exact ih memory dynamic
    | error cause =>
      rw [release] at released
      exact ih memory released

theorem stop_safe {post : Outcome → Prop} (state : State) {halt : Halt} (dynamic : halt.isDynamic) :
    Safe post (stop state halt) := by
  have stops := isDynamic_unwind state.frames state.store.memory dynamic
  have reported : halt.isPanic = false := by
    cases halt with
    | exit => rfl
    | fault cause => cases cause <;> first | rfl | contradiction
  rw [stop, reported]
  cases unwound : unwind state.frames state.store.memory halt with
  | exit code =>
    rw [unwound] at stops
    contradiction
  | fault cause =>
    rw [unwound] at stops
    exact stops

section
variable {mod : Ir.Module} {image : Image} {home : Linked} {rank : String → Nat}
  (hosts : Hosts mod image home) (ranked : mod.Ranked rank) (wellFormed : mod.WellFormed)
  (wellTyped : mod.WellTyped)
include hosts ranked wellFormed wellTyped

/-- A run from a sound state ends with a result of its type or for a reason that no type excludes.
-/
theorem run_safe {limits : Limits} {final : IrType} {steps : Nat} {state : State} {known : List Nat}
    (sound : state.frame.Sound mod home known)
    (waiting : Waiting mod home final state.frame.function.type.result state.callers) :
    Safe (fun outcome => ∃ val, Returns image limits.depth state val ∧ Holds (mod.shape final) val ∧
      outcome.exitCode = exitCode final val) (run image limits final steps state) := by
  induction steps generalizing state known with
  | zero => exact stop_safe state rfl
  | succ steps ih =>
    have steps := advance_behaves hosts ranked wellFormed wellTyped sound waiting limits.depth state.store
    unfold run
    cases stepped : (advance image limits.depth state.frame state.callers).run state.store with
    | error halt =>
      rw [stepped] at steps
      exact stop_safe state steps
    | ok res =>
      rw [stepped] at steps
      obtain ⟨control, store⟩ := res
      cases control with
      | running frame callers =>
        obtain ⟨⟨known, sound⟩, waiting⟩ := steps
        refine (@ih ⟨frame, callers, store⟩ known sound waiting).mono fun outcome ended => ?_
        obtain ⟨val, returns, holds⟩ := ended
        exact ⟨val, .later stepped returns, holds⟩
      | returned val => exact ⟨val, .now stepped, steps, rfl⟩

end

/-- A run of a function of a well-formed, well-typed module returns a value of the declared type, or
it ends in a fault that depends on what is computed. -/
theorem execute_safe {mod : Ir.Module} (wellFormed : mod.WellFormed) (wellTyped : mod.WellTyped)
    {others : List Ir.Module} (links : ∀ other ∈ others, LinksBeside other) {entry : String}
    {fn : Ir.Function} (found : mod.function? entry = some fn) (body : fn.isDeclaration = false)
    (limits : Limits) :
    Safe (fun outcome => ∃ val, EntryReturns mod others entry limits.depth val ∧
      Holds (mod.shape fn.type.result) val ∧ outcome.exitCode = exitCode fn.type.result val)
      (execute mod others entry limits) := by
  obtain ⟨rank, ranked⟩ := wellFormed.structs
  refine (load_safe wellFormed links).bind_of_ok fun (image, memory) loaded ⟨home, first, hosts⟩ => ?_
  have starts : image.modules.head?.bind (image.definition? · entry) = some (home, fn) := by
    rw [first]
    exact hosts.definition? found body
  dsimp only
  rw [starts]
  dsimp only
  have arguments := entryArguments_safe ranked wellFormed.spans (wellFormed.params entry fn found body)
    fun ty mem => wellFormed.lengths entry fn found ty (mem_append_left _ mem)
  rw [← hosts.same] at arguments
  refine arguments.bind_of_ok fun args given holds => ?_
  by_cases shallow : limits.depth = 0
  · rw [if_pos shallow]
    rfl
  · rw [if_neg shallow]
    have passed (idx : Nat) (ty : IrType) (there : fn.type.params[idx]? = some ty) :
        ∃ slot, args[idx]? = some slot ∧ Holds (mod.shape ty) slot := by
      obtain ⟨slot, known, holds⟩ := getElem?_of_forall₂ holds there
      exact ⟨slot, known, hosts.same ▸ holds⟩
    obtain ⟨frame, enters, sound, same⟩ := exists_entered wellFormed home found body passed
    have waiting : Waiting mod home fn.type.result frame.function.type.result [] := same ▸ .nobody
    have runs := @run_safe _ _ _ _ hosts ranked wellFormed wellTyped limits fn.type.result limits.steps
      { frame, store := { memory } } _ sound waiting
    simp only [enters]
    refine runs.mono fun outcome ended => ?_
    obtain ⟨val, returns, holds⟩ := ended
    exact ⟨val, ⟨image, memory, home, fn, args, frame, loaded, starts, given, enters, returns⟩, holds⟩

/-! A module that keeps a number in a heap block and reads it back. -/

namespace Pairs

def code : List Ir.Instruction := [
  .call (some 0) ⟨.function "malloc", .pointer⟩ { params := [.i64], result := .pointer } [⟨.int 16, .i64⟩],
  .elementPtr 1 (.struct "Pair") ⟨.register 0, .pointer⟩ [⟨.int 0, .i64⟩, ⟨.int 1, .i32⟩],
  .store ⟨.int 7, .i64⟩ ⟨.register 1, .pointer⟩,
  .load 2 .i64 ⟨.register 1, .pointer⟩,
  .call none ⟨.function "free", .pointer⟩ { params := [.pointer], result := .void } [⟨.register 0, .pointer⟩]]

def body : Ir.Block :=
  { label := "entry", instructions := code, terminator := some (.ret (some ⟨.register 2, .i64⟩)) }

def keep : Ir.Function := { symbol := "keep", type := { params := [], result := .i64 }, blocks := [body] }

def pairs : Ir.Module where
  name := "pairs"
  structs := ⟨[("Pair", { fields := [.pointer, .i64] })]⟩
  functions := ⟨[("malloc", { symbol := "malloc", type := { params := [.i64], result := .pointer } }),
    ("free", { symbol := "free", type := { params := [.pointer], result := .void } }), ("keep", keep)]⟩

theorem function_cases {fn : Ir.Function} (found : pairs.function? sym = some fn) :
    fn.blocks = [] ∨ fn = keep := by
  have mem := Table.mem_of_find found
  simp only [pairs, mem_cons, Prod.mk.injEq, not_mem_nil, or_false] at mem
  rcases mem with ⟨-, rfl⟩ | ⟨-, rfl⟩ | ⟨-, rfl⟩
  · exact .inl rfl
  · exact .inl rfl
  · exact .inr rfl

theorem block_cases {fn : Ir.Function} (found : pairs.function? sym = some fn) {block : Ir.Block}
    (there : block ∈ fn.blocks) : fn = keep ∧ block = body := by
  rcases function_cases found with none | rfl
  · rw [none] at there
    contradiction
  · exact ⟨rfl, mem_singleton.mp there⟩

theorem wellFormed_keep : keep.WellFormed where
  terminated := by
    intro i block found
    rw [mem_singleton.mp (mem_of_getElem? found)]
    rfl
  targets := by
    intro i block found term ends target mem
    rw [mem_singleton.mp (mem_of_getElem? found)] at ends
    cases ends
    contradiction
  registers := by decide
  closed := by
    intro i known block _ found
    rw [mem_singleton.mp (mem_of_getElem? found)]
    refine ⟨fun k instr at_k val mem => ?_, fun term ends val mem => ?_⟩
    · match k, at_k with
      | 0, rfl | 1, rfl | 2, rfl | 3, rfl | 4, rfl =>
        simp only [Instruction.operands, mem_cons, not_mem_nil, or_false] at mem
        rcases mem with rfl | rfl | rfl <;> simp [Value.Known, body, code, defined, Instruction.result?]
    · cases ends
      cases mem_singleton.mp mem
      simp [Value.Known, body, code, defined, Instruction.result?]

theorem resolved_code : ∀ instr ∈ code, instr.Resolved pairs := by
  simp only [code, forall_mem_cons]
  refine ⟨⟨"malloc", rfl, .malloc rfl rfl rfl⟩, ?_, trivial, trivial, ⟨"free", rfl, .free rfl rfl rfl⟩, ?_⟩
  · exact .cons (by decide) rfl (.nil _)
  · exact forall_mem_nil _

theorem fits_code : ∀ instr ∈ code, instr.Fits pairs := by
  simp only [code, forall_mem_cons]
  refine ⟨⟨rfl, rfl⟩, ⟨rfl, rfl, by decide⟩, ⟨rfl, rfl⟩, ⟨rfl, rfl⟩, ⟨rfl, rfl⟩, ?_⟩
  exact forall_mem_nil _

theorem typed_code : ∀ instr ∈ code, ∀ val ∈ instr.operands, val.Typed pairs keep := by
  simp only [code, forall_mem_cons, Instruction.operands]
  refine ⟨⟨⟨rfl, rfl⟩, ⟨64, rfl, rfl⟩, ?_⟩, ⟨rfl, ⟨64, rfl, rfl⟩, ⟨32, rfl, rfl⟩, ?_⟩,
    ⟨⟨64, rfl, rfl⟩, rfl, ?_⟩, ⟨rfl, ?_⟩,
    ⟨⟨rfl, rfl⟩, rfl, ?_⟩, ?_⟩ <;> exact forall_mem_nil _

theorem wellFormed_pairs : pairs.WellFormed where
  structs := by
    refine ⟨fun _ => 0, fun name struct found field mem => ?_⟩
    cases (Prod.mk.inj (mem_singleton.mp (Table.mem_of_find found))).2
    rcases mem_pair.mp mem with rfl | rfl <;> exact ⟨rfl, forall_mem_nil _⟩
  spans := by
    intro name struct found field mem
    cases (Prod.mk.inj (mem_singleton.mp (Table.mem_of_find found))).2
    rcases mem_pair.mp mem with rfl | rfl <;> trivial
  lengths := by
    intro sym fn found
    have short : ∀ entry ∈ pairs.functions.entries, ∀ ty ∈ entry.2.types, ty.Lengths (· ≤ Ir.Shape.capacity) := by
      decide
    exact short _ (Table.mem_of_find found)
  globals := forall_mem_nil _
  params := by
    intro sym fn found given ty mem
    rcases function_cases found with none | rfl
    · rw [Ir.Function.isDeclaration, none] at given
      contradiction
    · contradiction
  functions := by
    intro sym fn found
    rcases function_cases found with none | rfl
    · exact .declaration none
    · exact wellFormed_keep
  resolved := by
    intro sym fn found block there
    obtain ⟨-, rfl⟩ := block_cases found there
    exact resolved_code

theorem wellTyped_pairs : pairs.WellTyped := by
  intro sym fn found
  refine ⟨fun block there => ?_, fun block there => ?_, fun block there => ?_, fun block there => ?_⟩ <;>
    obtain ⟨rfl, rfl⟩ := block_cases found there
  · exact typed_code
  · exact fits_code
  · intro term ends val mem
    cases ends
    cases mem_singleton.mp mem
    rfl
  · intro term ends
    cases ends
    rfl

theorem pairs_safe :
    pairs.WellFormed ∧ pairs.WellTyped ∧ ∃ val, EntryReturns pairs [] "keep" 4 val ∧
    Holds (.int 64) val ∧ exitCode .i64 val = 7 := by
  refine ⟨wellFormed_pairs, wellTyped_pairs, ?_⟩
  have links : ∀ other ∈ ([] : List Ir.Module), LinksBeside other := forall_mem_nil _
  have safe := execute_safe wellFormed_pairs wellTyped_pairs links
    (show pairs.function? "keep" = some keep from rfl) rfl ⟨10, 4⟩
  have ran : execute pairs [] "keep" ⟨10, 4⟩ = .ok ⟨7, []⟩ := by rfl
  rw [ran] at safe
  obtain ⟨val, returns, holds, code⟩ := safe
  exact ⟨val, returns, holds, code.symm⟩

end Pairs
end TernLang.Machine
