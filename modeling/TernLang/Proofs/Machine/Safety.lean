import TernLang.Proofs.Ir.WellFormed
import TernLang.Proofs.Machine.Steps
import TernLang.Proofs.Machine.Typing

/-! Steps of well-typed modules. Every step keeps all registers at their types; if it stops the
program, then for a reason that no type excludes. -/
namespace TernLang.Machine

open List
open Ir (Value Instruction defined)

def Halt.isDynamic : Halt → Bool
  | fault cause => cause.isDynamic
  | exit _ => false

/-- A result is as stated, or there is none for a reason that no type excludes. -/
def Behaves {α : Type} (post : α → Prop) (action : Exec α) : Prop :=
  ∀ store, match action.run store with
    | .ok (val, _) => post val
    | .error halt => halt.isDynamic

namespace Behaves
variable {α β : Type} {post : α → Prop} {post' : β → Prop}

theorem pure {val : α} (holds : post val) : Behaves post (Pure.pure val) := fun _ => holds

theorem bind {action : Exec α} {next : α → Exec β} (first : Behaves post action)
    (andThen : ∀ val, post val → Behaves post' (next val)) : Behaves post' (action >>= next) := by
  intro store
  have here := first store
  cases ran : action.run store with
  | ok res =>
    rw [ran] at here
    rw [Success.run_bind_of_ok ran]
    exact andThen res.1 here res.2
  | error halt =>
    rw [ran] at here
    rw [Success.run_bind_of_error ran]
    exact here

theorem attempt {x : Except Fault α} (safe : Safe post x) : Behaves post (attempt x) := by
  cases x with
  | ok val => exact .pure safe
  | error cause => exact fun _ => safe

theorem attemptLayout {x : Except Ir.LayoutError α} {val : α} (known : x = .ok val)
    (holds : post val) :
    Behaves post (attemptLayout x) := by
  rw [known]
  exact .pure holds

theorem read : Behaves (fun _ => True) (get : Exec Store) := fun _ => trivial

theorem change (update : Store → Store) : Behaves (fun _ => True) (modify update : Exec Unit) :=
  fun _ => trivial

end Behaves

/-- Where the functions of a module run: its globals have addresses, and no other module takes the
place of the routines that manage memory. -/
structure Hosts (mod : Ir.Module) (image : Image) (home : Linked) : Prop where
  same : home.module = mod
  globals : ∀ name, mod.hasGlobal name → ∃ addr, home.globals.get? name = some addr
  routines : ∀ sym ∈ ["malloc", "free"], mod.isDefined sym = false →
    image.definition? home sym = none

/-- The frame has all registers it may need, and they hold values of their types. -/
structure Frame.Stocked (mod : Ir.Module) (home : Linked) (known : List Nat)
    (frame : Frame) : Prop where
  home : frame.home = home
  args : ∀ (idx : Nat) (ty : IrType), frame.function.type.params[idx]? = some ty →
    ∃ slot, frame.args[idx]? = some slot ∧ Holds (mod.shape ty) slot
  registers : ∀ reg ∈ known, ∃ slot, frame.registers.get? reg = some slot
  typed : ∀ reg slot ty, frame.registers.get? reg = some slot →
    frame.function.registerType? reg = some ty → Holds (mod.shape ty) slot

/-- What is left of the block belongs to the function and needs no other registers. -/
structure Frame.OnTrack (mod : Ir.Module) (known : List Nat) (frame : Frame) : Prop where
  function : ∃ sym, mod.function? sym = some frame.function
  code : ∀ instr ∈ frame.block.instructions, ∃ block ∈ frame.function.blocks,
    instr ∈ block.instructions
  ends : ∃ block ∈ frame.function.blocks, block.terminator = frame.block.terminator
  closed : frame.block.Closed frame.function.type.params.length known
  onward : ∀ term, frame.block.terminator = some term → ∀ tgt ∈ term.targets,
    frame.function.Arrives tgt (known ++ defined frame.block.instructions)

section
variable {mod : Ir.Module} {image : Image} {home : Linked} {rank : String → Nat}
  {values : List Value}

/-! Operands. -/

theorem functionAddress_behaves (sym : String) : Behaves (fun _ => True) (functionAddress sym) := by
  refine Behaves.read.bind fun store _ => ?_
  dsimp only
  split
  · exact .pure trivial
  · exact (Behaves.change _).bind fun _ _ => .pure trivial

/-- What a value may be in a function of the module. -/
structure Usable (mod : Ir.Module) (fn : Ir.Function) (known : List Nat) (val : Value) : Prop where
  typed : val.Typed mod fn
  lengths : val.type.Lengths (· ≤ Ir.Shape.capacity)
  known : val.Known fn.type.params.length known

theorem followIndices_behaves (ranked : mod.Ranked rank) (spans : mod.Spans (· ≤ Ir.Shape.capacity))
    {frame : Frame} {ty : IrType} (leads : mod.Leads ty values) (sized : mod.isSized ty)
    (lengths : ty.Lengths (· ≤ Ir.Shape.capacity)) (off : UInt64) :
    Behaves (fun _ => True) (followIndices image frame (mod.shape ty) values off) := by
  induction leads generalizing off with
  | nil => exact .pure trivial
  | @cons ty part bits word values nonneg there _ ih =>
    obtain ⟨start, known⟩ := ranked.exists_part sized lengths there
    have idx : evalIndex image frame ⟨.int word, .int bits⟩ = pure (Word.signed word bits) := rfl
    rw [followIndices, idx, pure_bind, if_neg (by omega), known]
    exact ih (ranked.isSized_part sized there) (spans.lengths_part lengths there) _

section
variable (hosts : Hosts mod image home) (ranked : mod.Ranked rank)
  (spans : mod.Spans (· ≤ Ir.Shape.capacity)) {frame : Frame} {known : List Nat}
  (stocked : frame.Stocked mod home known) {val : Value}
include hosts ranked spans stocked

theorem eval_behaves (usable : Usable mod frame.function known val) :
    Behaves (Holds (mod.shape val.type)) (eval image frame val) := by
  obtain ⟨typed, lengths, knows⟩ := usable
  unfold Value.Typed at typed
  unfold Value.Known at knows
  unfold eval
  cases operand : val.operand with
  | register idx =>
    rw [operand] at typed knows
    obtain ⟨slot, found⟩ := stocked.registers idx knows
    dsimp only
    rw [found]
    exact .pure (stocked.typed idx slot val.type found typed)
  | argument idx =>
    rw [operand] at typed
    obtain ⟨slot, found, holds⟩ := stocked.args idx val.type typed
    dsimp only
    rw [found]
    exact .pure holds
  | int word =>
    rw [operand] at typed
    obtain ⟨bits, same, fits⟩ := typed
    rw [same]
    exact .pure (.int fits)
  | float real =>
    rw [operand] at typed
    exact .pure (.of_real typed real)
  | null =>
    rw [operand] at typed
    rw [show val.type = .pointer from typed]
    exact .pure (.pointer 0)
  | zero =>
    rw [operand] at typed
    obtain ⟨slot, zero, holds⟩ := zeroOf_holds (ranked.solid_of_spans spans typed lengths)
    rw [stocked.home, hosts.same]
    exact .attemptLayout zero holds
  | global name =>
    rw [operand] at typed
    obtain ⟨addr, found⟩ := hosts.globals name typed.2
    dsimp only
    rw [stocked.home, Image.global?, found, typed.1]
    exact .pure (.pointer addr)
  | function sym =>
    rw [operand] at typed
    rw [typed.1]
    exact (functionAddress_behaves sym).bind fun addr _ => .pure (.pointer addr)

theorem evalWord_behaves (usable : Usable mod frame.function known val)
    (word : val.type = .pointer ∨ val.type.isInteger) :
    Behaves (fun _ => True) (evalWord image frame val) := by
  refine (eval_behaves hosts ranked spans stocked usable).bind fun slot holds => .attempt ?_
  rcases word with ptr | integer
  · rw [ptr] at holds
    cases holds
    trivial
  · cases ty : val.type <;> rw [ty] at integer holds <;> first | contradiction | (cases holds; trivial)

theorem evalList_behaves (usable : ∀ val ∈ values, Usable mod frame.function known val) :
    Behaves (Forall₂ (fun val slot => Holds (mod.shape val.type) slot) values)
      (evalList image frame values) := by
  induction values with
  | nil => exact .pure .nil
  | cons val values ih =>
    obtain ⟨first, rest⟩ := forall_mem_cons.mp usable
    refine (eval_behaves hosts ranked spans stocked first).bind fun slot here => ?_
    exact (ih rest).bind fun slots later => .pure (.cons here later)

theorem elementOffset_behaves {base : IrType} {indices : List Value} (sized : mod.isSized base)
    (lengths : base.Lengths (· ≤ Ir.Shape.capacity))
    (usable : ∀ val ∈ indices, Usable mod frame.function known val)
    (integers : ∀ val ∈ indices, val.type.isInteger) (leads : mod.Leads base indices.tail) :
    Behaves (fun _ => True) (elementOffset image frame base indices) := by
  cases indices with
  | nil => exact .pure trivial
  | cons first rest =>
    obtain ⟨layout, laid⟩ := (ranked.solid sized).exists_layout
    have idx := evalWord_behaves hosts ranked spans stocked (usable first mem_cons_self)
      (.inr (integers first mem_cons_self))
    unfold elementOffset
    rw [stocked.home, hosts.same]
    have known : Behaves (fun _ => True) (attemptLayout (mod.shape base).layout) := .attemptLayout laid trivial
    have counted : Behaves (fun _ => True) (evalIndex image frame first) := idx.bind fun _ _ => .pure trivial
    refine known.bind fun layout _ => counted.bind fun _ _ => ?_
    exact followIndices_behaves ranked spans leads sized lengths _

end

/-! Instructions. -/

/-- The frame behind an instruction: nothing changes but the register of its result. -/
structure Frame.Done (mod : Ir.Module) (instr : Instruction) (frame frame' : Frame) : Prop where
  home : frame'.home = frame.home
  function : frame'.function = frame.function
  block : frame'.block = frame.block
  args : frame'.args = frame.args
  registers : ∃ slot, (instr.result?.isSome → Holds (mod.shape instr.type) slot) ∧
    ∀ reg, frame'.registers.get? reg =
      if instr.result? = some reg then some slot else frame.registers.get? reg

variable {slot : Slot} {sym : String} {fn : Ir.Function} {frame' : Frame} {args : List Slot}

theorem Frame.Done.assign {frame : Frame} {instr : Instruction} {reg : Nat}
    (allocations : List UInt64) (res : instr.result? = some reg)
    (holds : Holds (mod.shape instr.type) slot) :
    frame.Done mod instr ({ frame with allocations }.assign reg slot) where
  home := rfl
  function := rfl
  block := rfl
  args := rfl
  registers := by
    refine ⟨slot, fun _ => holds, fun other => ?_⟩
    rw [Frame.assign, Sparse.get?_insert, res]
    simp only [Option.some.injEq, eq_comm]

/-- An instruction whose operands have their types stores its result, if it does not stop. -/
theorem perform_behaves (hosts : Hosts mod image home) (ranked : mod.Ranked rank)
    (spans : mod.Spans (· ≤ Ir.Shape.capacity)) {frame : Frame} {known : List Nat}
    (stocked : frame.Stocked mod home known) {instr : Instruction}
    (usable : ∀ val ∈ instr.operands, Usable mod frame.function known val) (fits : instr.Fits mod)
    (lengths : ∀ ty ∈ instr.types, ty.Lengths (· ≤ Ir.Shape.capacity))
    (resolved : instr.Resolved mod)
    (plain : ∀ res callee ty args, instr ≠ .call res callee ty args) :
    Behaves (frame.Done mod instr) (perform image frame instr) := by
  have same : frame.home.module = mod := by rw [stocked.home, hosts.same]
  have word (val : Value) (mem : val ∈ instr.operands) :=
    evalWord_behaves hosts ranked spans stocked (usable val mem)
  have slot (val : Value) (mem : val ∈ instr.operands) :=
    eval_behaves hosts ranked spans stocked (usable val mem)
  unfold perform
  rw [same]
  cases instr with
  | alloca res ty =>
    obtain ⟨layout, laid⟩ := (ranked.solid fits).exists_layout
    have size : mod.size ty = .ok layout.size := by
      rw [Ir.Module.size, Ir.Module.layout, laid]
      rfl
    have known : Behaves (fun _ => True) (attemptLayout (mod.size ty)) := .attemptLayout size trivial
    refine known.bind fun size _ => Behaves.read.bind fun store _ => ?_
    refine Behaves.bind (.attempt (store.memory.allocate_total size)) fun (addr, memory) _ => ?_
    exact (Behaves.change _).bind fun _ _ => .pure (.assign _ rfl (.pointer addr))
  | load res ty ptr =>
    refine (word ptr (by simp [Instruction.operands]) (.inl fits.2)).bind fun addr _ => ?_
    refine Behaves.read.bind fun store _ => ?_
    refine Behaves.bind (.attempt (readShape_safe
      (ranked.solid_of_spans spans fits.1 (lengths _ (.head _))) _ _)) fun slot holds => ?_
    exact .pure (.assign frame.allocations rfl holds)
  | store val ptr =>
    refine (word ptr (by simp [Instruction.operands]) (.inl fits.2)).bind fun addr _ => ?_
    refine (slot val (by simp [Instruction.operands])).bind fun slot holds => Behaves.read.bind fun store _ => ?_
    refine Behaves.bind (.attempt (writeShape_total (ranked.solid_of_spans spans fits.1
      (lengths _ (.tail _ (.head _)))) holds _ _)) fun memory _ => ?_
    exact (Behaves.change _).bind fun _ _ => .pure ⟨rfl, rfl, rfl, rfl, .void, nofun, fun _ => rfl⟩
  | elementPtr res base ptr indices =>
    refine (word ptr (by simp [Instruction.operands]) (.inl fits.2.1)).bind fun addr _ => ?_
    refine (elementOffset_behaves hosts ranked spans stocked fits.1 (lengths base
      (by simp [Instruction.types])) (fun val mem => usable val (.tail _ mem)) fits.2.2
      resolved).bind fun off _ => ?_
    exact .pure (.assign frame.allocations rfl (.pointer _))
  | binary res op left right =>
    refine (slot left (by simp [Instruction.operands])).bind fun a first => ?_
    refine (slot right (by simp [Instruction.operands])).bind fun b second => ?_
    rw [← fits.1] at second
    refine Behaves.bind (.attempt (binary_safe fits.2 first second)) fun val holds => ?_
    exact .pure (.assign frame.allocations rfl holds)
  | compare res predicate left right =>
    refine (slot left (by simp [Instruction.operands])).bind fun a first => ?_
    refine (slot right (by simp [Instruction.operands])).bind fun b second => ?_
    rw [← fits.1] at second
    refine Behaves.bind (.attempt (compare_total fits.2 first second)) fun outcome _ => ?_
    refine .pure (.assign frame.allocations rfl (.int ?_))
    cases outcome <;> rfl
  | cast res op val tgt =>
    refine (slot val (by simp [Instruction.operands])).bind fun a holds => ?_
    refine Behaves.bind (.attempt (cast_safe fits holds)) fun val holds => ?_
    exact .pure (.assign frame.allocations rfl holds)
  | extractValue res ty aggregate idx =>
    refine (slot aggregate (by simp [Instruction.operands])).bind fun a holds => ?_
    obtain ⟨items, rfl, ⟨item, found, holds⟩, -⟩ := holds.exists_part ranked fits
    dsimp only
    rw [found]
    exact .pure (.assign frame.allocations rfl holds)
  | insertValue res aggregate val idx =>
    refine (slot aggregate (by simp [Instruction.operands])).bind fun a holds => ?_
    obtain ⟨items, rfl, ⟨item, found, -⟩, replaced⟩ := holds.exists_part ranked fits
    refine (slot val (by simp [Instruction.operands])).bind fun b inner => ?_
    rw [if_pos (List.getElem?_eq_some_iff.mp found).1]
    exact .pure (.assign frame.allocations rfl (replaced b inner))
  | call res callee ty args => exact absurd rfl (plain res callee ty args)

/-! Frames. -/

theorem Frame.function_assign? (frame : Frame) (reg : Option Nat) (slot : Slot) :
    (frame.assign? reg slot).function = frame.function := by
  cases reg <;> rfl

theorem Hosts.definition? (hosts : Hosts mod image home) (found : mod.function? sym = some fn)
    (body : fn.isDeclaration = false) : image.definition? home sym = some (home, fn) := by
  have here : home.definition? sym = some fn := by
    rw [Linked.definition?, hosts.same, found]
    simp [body]
  rw [Image.definition?, here]

structure Frame.Sound (mod : Ir.Module) (home : Linked) (known : List Nat) (frame : Frame) : Prop
    extends Frame.Stocked mod home known frame, Frame.OnTrack mod known frame

section
variable {frame : Frame} {known : List Nat} {instr : Instruction} {rest : List Instruction}

theorem Frame.OnTrack.usable (wellFormed : mod.WellFormed) (wellTyped : mod.WellTyped)
    (onTrack : frame.OnTrack mod known) (code : frame.block.instructions = instr :: rest)
    {val : Value} (mem : val ∈ instr.operands) :
    Usable mod frame.function known val := by
  obtain ⟨sym, found⟩ := onTrack.function
  obtain ⟨block, there, inside⟩ := onTrack.code instr (code ▸ mem_cons_self)
  refine ⟨(wellTyped sym _ found).operands block there instr inside val mem,
    wellFormed.lengths_instruction found there inside _ (.tail _ (mem_append_left _ (mem_map_of_mem mem))), ?_⟩
  have first : frame.block.instructions[0]? = some instr := by rw [code]; rfl
  simpa using onTrack.closed.instructions 0 instr first val mem

theorem Frame.OnTrack.usable_terminator (wellFormed : mod.WellFormed) (wellTyped : mod.WellTyped)
    (onTrack : frame.OnTrack mod known) (code : frame.block.instructions = [])
    {term : Ir.Terminator} (ends : frame.block.terminator = some term) {val : Value}
    (mem : val ∈ term.operands) :
    Usable mod frame.function known val := by
  obtain ⟨sym, found⟩ := onTrack.function
  obtain ⟨block, there, same⟩ := onTrack.ends
  refine ⟨(wellTyped sym _ found).returned block there term (same.trans ends) val mem,
    wellFormed.lengths_terminator found there (same.trans ends) mem, ?_⟩
  have knows := onTrack.closed.terminator term ends val mem
  rwa [code, Ir.defined_nil, append_nil] at knows

/-- Behind an instruction, its result is one more register that may be used. -/
theorem Frame.OnTrack.behind (onTrack : frame.OnTrack mod known)
    (code : frame.block.instructions = instr :: rest) :
    (frame.behind rest).OnTrack mod (known ++ defined [instr]) where
  function := onTrack.function
  code := fun other mem => onTrack.code other (code ▸ mem_cons_of_mem _ mem)
  ends := onTrack.ends
  closed := by
    refine ⟨fun k other at_k val mem => ?_, fun term ends val mem => ?_⟩
    · have later : frame.block.instructions[k + 1]? = some other := by
        rw [code]
        exact at_k
      have knows := onTrack.closed.instructions (k + 1) other later val mem
      rw [code, take_succ_cons, ← singleton_append, Ir.defined_append] at knows
      rwa [append_assoc]
    · have knows := onTrack.closed.terminator term ends val mem
      rw [code, ← singleton_append, Ir.defined_append] at knows
      rwa [append_assoc]
  onward := by
    intro term ends tgt mem
    have arrives := onTrack.onward term ends tgt mem
    rw [code, ← singleton_append, Ir.defined_append] at arrives
    rwa [append_assoc]

theorem Frame.OnTrack.congr (onTrack : frame.OnTrack mod known)
    (fn : frame'.function = frame.function) (block : frame'.block = frame.block) :
    frame'.OnTrack mod known where
  function := fn ▸ onTrack.function
  code := by
    rw [fn, block]
    exact onTrack.code
  ends := by
    rw [fn, block]
    exact onTrack.ends
  closed := by
    rw [fn, block]
    exact onTrack.closed
  onward := by
    rw [fn, block]
    exact onTrack.onward

theorem Frame.Stocked.done (stocked : frame.Stocked mod home known)
    (typed : ∀ reg, instr.result? = some reg →
      frame.function.registerType? reg = some instr.type) (done : frame.Done mod instr frame') :
    frame'.Stocked mod home (known ++ defined [instr]) where
  home := done.home.trans stocked.home
  args := by
    rw [done.function, done.args]
    exact stocked.args
  registers := by
    obtain ⟨slot, -, registers⟩ := done.registers
    intro reg mem
    rw [registers]
    split
    · exact ⟨slot, rfl⟩
    · next other =>
      refine stocked.registers reg ?_
      rcases mem_append.mp mem with mem | mem
      · exact mem
      · obtain ⟨_, only, defines⟩ := mem_filterMap.mp mem
        cases mem_singleton.mp only
        exact absurd defines other
  typed := by
    obtain ⟨slot, holds, registers⟩ := done.registers
    intro reg found ty there known
    rw [done.function] at known
    rw [registers] at there
    split at there
    · next defines =>
      cases there
      cases known.symm.trans (typed reg defines)
      exact holds (Option.isSome_of_eq_some defines)
    · exact stocked.typed reg found ty there known

end

/-- Frames that wait for a result of a type, above one that gives the final result. -/
inductive Waiting (mod : Ir.Module) (home : Linked)
    (final : IrType) : IrType → List Caller → Prop where
  | nobody : Waiting mod home final final []
  | caller {res : IrType} {caller : Caller} {rest : List Caller} :
    (∀ slot, Holds (mod.shape res) slot →
      ∃ known, (caller.frame.assign? caller.result slot).Sound mod home known) →
    Waiting mod home final caller.frame.function.type.result rest →
      Waiting mod home final res (caller :: rest)

def Control.Sound (mod : Ir.Module) (home : Linked) (final : IrType) : Control → Prop
  | running frame callers =>
    (∃ known, frame.Sound mod home known) ∧ Waiting mod home final frame.function.type.result callers
  | returned val => Holds (mod.shape final) val

section
variable (wellFormed : mod.WellFormed) {frame : Frame} {known : List Nat}
include wellFormed

theorem onTrack_start (found : mod.function? sym = some frame.function) {tgt : Nat}
    (arrives : frame.function.Arrives tgt known)
    (there : frame.function.block? tgt = some frame.block) :
    frame.OnTrack mod known where
  function := ⟨sym, found⟩
  code := fun _ mem => ⟨frame.block, mem_of_getElem? there, mem⟩
  ends := ⟨frame.block, mem_of_getElem? there, rfl⟩
  closed := (wellFormed.functions sym _ found).closed tgt known frame.block arrives there
  onward := fun _ ends _ mem => arrives.branch there ends mem

theorem exists_entered (home : Linked) (found : mod.function? sym = some fn)
    (body : fn.isDeclaration = false) (given : ∀ (idx : Nat) (ty : IrType),
      fn.type.params[idx]? = some ty → ∃ slot, args[idx]? = some slot ∧ Holds (mod.shape ty) slot) :
    ∃ frame, Frame.enter? home fn args = some frame ∧ frame.Sound mod home [] ∧
      frame.function = fn := by
  obtain ⟨block, there⟩ : ∃ block, fn.block? 0 = some block := by
    unfold Ir.Function.block?
    cases blocks : fn.blocks with
    | nil =>
      rw [Ir.Function.isDeclaration, blocks] at body
      contradiction
    | cons block rest => exact ⟨block, rfl⟩
  refine ⟨{ home, function := fn, block, args }, by rw [Frame.enter?, there]; rfl, ⟨⟨rfl, given, ?_, ?_⟩, ?_⟩, rfl⟩
  · exact forall_mem_nil _
  · intro reg slot ty none
    rw [Sparse.get?_empty] at none
    contradiction
  · exact onTrack_start wellFormed found .entry there

theorem enter_behaves (found : mod.function? sym = some fn) (body : fn.isDeclaration = false)
    (given : ∀ (idx : Nat) (ty : IrType), fn.type.params[idx]? = some ty →
      ∃ slot, args[idx]? = some slot ∧ Holds (mod.shape ty) slot) (maxDepth depth : Nat) :
    Behaves (fun frame => frame.Sound mod home [] ∧ frame.function = fn)
      (enter maxDepth depth home fn args) := by
  unfold enter
  by_cases deep : depth ≥ maxDepth
  · simp only [if_pos deep]
    exact fun _ => rfl
  · obtain ⟨frame, enters, sound⟩ := exists_entered wellFormed home found body given
    simp only [if_neg deep, enters]
    exact .pure sound

end

section
variable (hosts : Hosts mod image home) (ranked : mod.Ranked rank) (wellFormed : mod.WellFormed)
  (wellTyped : mod.WellTyped) {frame : Frame} {known : List Nat}
  (sound : frame.Sound mod home known) {rest : List Instruction} {instr : Instruction}
  {ty : Ir.FunctionType}

theorem Frame.OnTrack.exists_block (onTrack : frame.OnTrack mod known)
    (code : frame.block.instructions = instr :: rest) :
    ∃ sym block, mod.function? sym = some frame.function ∧ block ∈ frame.function.blocks ∧
      instr ∈ block.instructions := by
  obtain ⟨sym, found⟩ := onTrack.function
  obtain ⟨block, there, inside⟩ := onTrack.code instr (code ▸ mem_cons_self)
  exact ⟨sym, block, found, there, inside⟩

include wellFormed in
theorem Frame.Sound.done (sound : frame.Sound mod home known)
    (code : frame.block.instructions = instr :: rest)
    (done : (frame.behind rest).Done mod instr frame') :
    frame'.Sound mod home (known ++ defined [instr]) := by
  obtain ⟨sym, block, found, there, inside⟩ := sound.exists_block code
  have stocked : (frame.behind rest).Stocked mod home known := ⟨sound.home, sound.args, sound.registers, sound.typed⟩
  refine ⟨stocked.done (fun reg defines => ?_) done, ?_⟩
  · exact Ir.Function.registerType?_of_mem (wellFormed.functions sym _ found).registers there inside defines
  · exact (sound.toOnTrack.behind code).congr done.function done.block

theorem Frame.Done.assign? (res : Option Nat) (callee : Value) (ty : Ir.FunctionType)
    (args : List Value) (holds : Holds (mod.shape ty.result) slot) :
    frame.Done mod (.call res callee ty args) (frame.assign? res slot) := by
  obtain ⟨registers, same, get⟩ := frame.assign?_eq res slot
  rw [same]
  exact ⟨rfl, rfl, rfl, rfl, slot, fun _ => holds, get⟩

theorem exists_argument {args : List Value} {slots : List Slot}
    (accepts : ty.accepts (args.map (·.type)))
    (holds : Forall₂ (fun val slot => Holds (mod.shape val.type) slot) args slots) {idx : Nat}
    {param : IrType} (there : ty.params[idx]? = some param) :
    ∃ slot, slots[idx]? = some slot ∧ Holds (mod.shape param) slot := by
  have passed : (args.map (·.type))[idx]? = some param := by
    unfold Ir.FunctionType.accepts at accepts
    split at accepts
    · obtain ⟨more, same⟩ := isPrefixOf_iff_prefix.mp accepts
      rw [← same, List.getElem?_append_left (List.getElem?_eq_some_iff.mp there).1]
      exact there
    · rwa [of_decide_eq_true accepts]
  rw [getElem?_map] at passed
  obtain ⟨val, found, rfl⟩ := Option.map_eq_some_iff.mp passed
  exact getElem?_of_forall₂ holds found

theorem routineArgument_behaves (name : String) (given : args[0]? = some slot)
    (word : Total slot.word) :
    Behaves (fun _ => True) (routineArgument name args 0) := by
  rw [routineArgument, given]
  exact .attempt word

theorem malloc_behaves (given : args[0]? = some slot) (holds : Holds (mod.shape .i64) slot) :
    Behaves (Holds (mod.shape .pointer)) (callRoutine "malloc" args) := by
  cases holds
  refine (routineArgument_behaves _ given trivial).bind fun word _ => Behaves.read.bind fun store _ => ?_
  refine Behaves.bind (.attempt (store.memory.allocate_total _)) fun (addr, memory) _ => ?_
  exact (Behaves.change _).bind fun _ _ => .pure (.pointer addr)

theorem free_behaves (given : args[0]? = some slot) (holds : Holds (mod.shape .pointer) slot) :
    Behaves (Holds (mod.shape .void)) (callRoutine "free" args) := by
  cases holds
  refine (routineArgument_behaves _ given trivial).bind fun word _ => Behaves.read.bind fun store _ => ?_
  refine Behaves.bind (.attempt (store.memory.release_total _)) fun memory _ => ?_
  exact (Behaves.change _).bind fun _ _ => .pure .void

variable {callers : List Caller} {final : IrType}

include hosts ranked wellFormed wellTyped in
theorem performCall_behaves (sound : frame.Sound mod home known) {res : Option Nat} {callee : Value}
    {args : List Value} (code : frame.block.instructions = .call res callee ty args :: rest)
    (waiting : Waiting mod home final frame.function.type.result callers) (maxDepth : Nat) :
    Behaves (Control.Sound mod home final)
      (performCall image maxDepth (frame.behind rest) callers res callee args) := by
  obtain ⟨sym, block, found, there, inside⟩ := sound.exists_block code
  have fits := (wellTyped sym _ found).instructions block there _ inside
  obtain ⟨tgt, operand, offers⟩ := wellFormed.resolved sym _ found block there _ inside
  have stocked : (frame.behind rest).Stocked mod home known := ⟨sound.home, sound.args, sound.registers, sound.typed⟩
  have goesOn (slot : Slot) (holds : Holds (mod.shape ty.result) slot) :
      ((frame.behind rest).assign? res slot).Sound mod home (known ++ defined [.call res callee ty args]) :=
    sound.done wellFormed code (.assign? res callee ty args holds)
  have usable (val : Value) (mem : val ∈ args) : Usable mod frame.function known val :=
    sound.usable wellFormed wellTyped code (mem_cons_of_mem _ mem)
  have goesTo : calleeSymbol image (frame.behind rest) callee = pure tgt := by
    rw [calleeSymbol, operand]
  rw [performCall, goesTo, pure_bind]
  refine (evalList_behaves hosts ranked wellFormed.spans stocked usable).bind fun slots holds => ?_
  cases offers with
  | @function _ fn defined body =>
    rw [show (frame.behind rest).home = home from sound.home, hosts.definition? defined body]
    refine (enter_behaves wellFormed defined body (fun _ _ => exists_argument fits.2 holds) maxDepth _).bind ?_
    rintro entered ⟨start, same⟩
    refine .pure ⟨⟨[], start⟩, .caller (fun slot holds => ⟨_, goesOn slot ?_⟩) waiting⟩
    rwa [same] at holds
  | malloc undefined params res =>
    obtain ⟨slot, there, holds⟩ := exists_argument fits.2 holds (show ty.params[0]? = some .i64 by rw [params]; rfl)
    rw [show (frame.behind rest).home = home from sound.home, hosts.routines _ (by simp) undefined]
    refine (malloc_behaves there holds).bind fun val holds => ?_
    rw [res] at goesOn
    exact .pure ⟨⟨_, goesOn val holds⟩, (frame.behind rest).function_assign? _ _ ▸ waiting⟩
  | free undefined params res =>
    obtain ⟨slot, there, holds⟩ :=
      exists_argument fits.2 holds (show ty.params[0]? = some .pointer by rw [params]; rfl)
    rw [show (frame.behind rest).home = home from sound.home, hosts.routines _ (by simp) undefined]
    refine (free_behaves there holds).bind fun val holds => ?_
    rw [res] at goesOn
    exact .pure ⟨⟨_, goesOn val holds⟩, (frame.behind rest).function_assign? _ _ ▸ waiting⟩

include hosts ranked wellFormed wellTyped in
theorem performReturn_behaves (sound : frame.Sound mod home known)
    (code : frame.block.instructions = []) {val : Option Value}
    (ends : frame.block.terminator = some (.ret val))
    (waiting : Waiting mod home final frame.function.type.result callers) :
    Behaves (Control.Sound mod home final) (performReturn image frame callers val) := by
  obtain ⟨sym, found⟩ := sound.function
  obtain ⟨block, there, same⟩ := sound.ends
  have fits := (wellTyped sym _ found).terminators block there _ (same.trans ends)
  unfold performReturn
  extract_lets finish
  have finishes (slot : Slot) (holds : Holds (mod.shape frame.function.type.result) slot) :
      Behaves (Control.Sound mod home final) (finish slot) := by
    refine Behaves.read.bind fun store _ => ?_
    refine Behaves.bind (.attempt (store.memory.releaseAll_total _)) fun memory _ => ?_
    refine (Behaves.change _).bind fun _ _ => ?_
    cases waiting with
    | nobody => exact .pure holds
    | @caller _ caller rest goesOn below =>
      exact .pure ⟨goesOn slot holds, caller.frame.function_assign? _ _ ▸ below⟩
  cases val with
  | none =>
    have void : frame.function.type.result = .void := fits
    rw [void] at finishes
    exact finishes .void .void
  | some val =>
    have usable := sound.usable_terminator wellFormed wellTyped code ends (mem_singleton_self val)
    have ty : val.type = frame.function.type.result := fits
    rw [← ty] at finishes
    exact (eval_behaves hosts ranked wellFormed.spans sound.toStocked usable).bind finishes

include wellFormed in
theorem jump_behaves (sound : frame.Sound mod home known) (code : frame.block.instructions = [])
    {term : Ir.Terminator} (ends : frame.block.terminator = some term) {tgt : Nat}
    (mem : tgt ∈ term.targets) (waiting : Waiting mod home final frame.function.type.result callers) :
    Behaves (Control.Sound mod home final) (do return .running (← frame.jump tgt) callers) := by
  obtain ⟨sym, found⟩ := sound.function
  obtain ⟨block, there, same⟩ := sound.ends
  obtain ⟨idx, at_index⟩ := mem_iff_getElem?.mp there
  have inside := (wellFormed.functions sym _ found).targets idx block at_index _ (same.trans ends) tgt mem
  have arrives := sound.onward term ends tgt mem
  rw [code, Ir.defined_nil, append_nil] at arrives
  have next : frame.function.block? tgt = some frame.function.blocks[tgt] := getElem?_eq_getElem inside
  rw [Frame.jump, next]
  refine .pure ⟨⟨known, ⟨sound.home, sound.args, sound.registers, sound.typed⟩, ?_⟩, waiting⟩
  exact onTrack_start wellFormed found arrives next

include hosts ranked wellFormed wellTyped in
theorem leaveBlock_behaves (sound : frame.Sound mod home known)
    (code : frame.block.instructions = [])
    (waiting : Waiting mod home final frame.function.type.result callers) :
    Behaves (Control.Sound mod home final) (leaveBlock image frame callers) := by
  obtain ⟨sym, found⟩ := sound.function
  obtain ⟨block, there, same⟩ := sound.ends
  obtain ⟨idx, at_index⟩ := mem_iff_getElem?.mp there
  obtain ⟨term, ends⟩ := Option.isSome_iff_exists.mp
    ((wellFormed.functions sym _ found).terminated idx block at_index)
  rw [same] at ends
  have fits := (wellTyped sym _ found).terminators block there _ (same.trans ends)
  rw [leaveBlock, ends]
  cases term with
  | branch tgt => exact jump_behaves wellFormed sound code ends (mem_singleton_self tgt) waiting
  | condBranch cond ifTrue ifFalse =>
    have usable := sound.usable_terminator wellFormed wellTyped code ends (mem_singleton_self cond)
    have bool : cond.type.isInteger := by rw [show cond.type = .bool from fits]; rfl
    refine (evalWord_behaves hosts ranked wellFormed.spans sound.toStocked usable (.inr bool)).bind fun word _ => ?_
    refine jump_behaves wellFormed sound code ends ?_ waiting
    split <;> simp [Ir.Terminator.targets]
  | ret val => exact performReturn_behaves hosts ranked wellFormed wellTyped sound code ends waiting

include hosts ranked wellFormed wellTyped in
/-- One step leads to a frame of the module, to the final result, or to a stop that no type
excludes. -/
theorem advance_behaves (sound : frame.Sound mod home known)
    (waiting : Waiting mod home final frame.function.type.result callers) (maxDepth : Nat) :
    Behaves (Control.Sound mod home final) (advance image maxDepth frame callers) := by
  unfold advance
  split
  · next code => exact leaveBlock_behaves hosts ranked wellFormed wellTyped sound code waiting
  · next code => exact performCall_behaves hosts ranked wellFormed wellTyped sound code waiting maxDepth
  · next instr rest plain code =>
    obtain ⟨sym, block, found, there, inside⟩ := sound.exists_block code
    have stocked : (frame.behind rest).Stocked mod home known :=
      ⟨sound.home, sound.args, sound.registers, sound.typed⟩
    have performs := perform_behaves hosts ranked wellFormed.spans stocked
      (fun val => sound.usable wellFormed wellTyped code)
      ((wellTyped sym _ found).instructions block there _ inside)
      (wellFormed.lengths_instruction found there inside) (wellFormed.resolved sym _ found block there _ inside) plain
    refine performs.bind fun after done => .pure ⟨⟨_, sound.done wellFormed code done⟩, ?_⟩
    rw [done.function]
    exact waiting

end

end

end TernLang.Machine
