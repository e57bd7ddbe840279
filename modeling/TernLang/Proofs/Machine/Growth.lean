import Mathlib.Data.List.Infix
import TernLang.Proofs.Machine.Element

/-! What a step leaves of the store. Regions are made and ended but none comes back, and functions
keep the addresses they were given. -/
namespace TernLang

open List

theorem Sparse.isSome_erase {α : Type} {map : Sparse α} :
    ((map.erase key).get? other).isSome ↔ other ≠ key ∧ (map.get? other).isSome := by
  rw [get?_erase]
  split
  · next same => simp [same]
  · next apart => simp [apart]

namespace Machine

open Ir (Shape Value Instruction)
open Success

namespace Memory

structure Ages (memory memory' : Memory) : Prop where
  count : memory.count ≤ memory'.count
  live : ∀ num < memory.count, (memory'.regions.get? num).isSome → (memory.regions.get? num).isSome

namespace Ages
variable {memory memory' memory'' : Memory} {addr : UInt64}

theorem refl (memory : Memory) : memory.Ages memory := ⟨Nat.le_refl _, fun _ _ => id⟩

theorem trans (early : memory.Ages memory') (late : memory'.Ages memory'') :
    memory.Ages memory'' where
  count := Nat.le_trans early.count late.count
  live num old there := early.live num old (late.live num (Nat.lt_of_lt_of_le old early.count) there)

theorem of_keeps (keeps : memory.Keeps memory') : memory.Ages memory' where
  count := Nat.le_of_eq keeps.count.symm
  live num _ there := by
    obtain ⟨region, found⟩ := Option.isSome_iff_exists.mp there
    have sizes := keeps.sizes num
    rw [found, Option.map_some, eq_comm, Option.map_eq_some_iff] at sizes
    obtain ⟨region', found', -⟩ := sizes
    exact Option.isSome_iff_exists.mpr ⟨region', found'⟩

theorem allocate (made : memory.allocate size = .ok (addr, memory')) : memory.Ages memory' := by
  obtain ⟨rfl, rfl⟩ := Prod.mk.inj (allocate_ok.mp made).2
  refine ⟨Nat.le_succ _, fun num old there => ?_⟩
  rwa [Sparse.get?_insert, if_neg (Nat.ne_of_lt old)] at there

theorem release (released : memory.release addr = .ok memory') : memory.Ages memory' := by
  obtain ⟨-, rfl⟩ | ⟨num, -, -, rfl⟩ := release_ok.mp released
  · exact .refl _
  · exact ⟨Nat.le_refl _, fun other _ there => (Sparse.isSome_erase.mp there).2⟩

theorem releaseAll (released : memory.releaseAll addresses = .ok memory') :
    memory.Ages memory' := by
  induction addresses generalizing memory with
  | nil =>
    cases released
    exact .refl _
  | cons addr rest ih =>
    obtain ⟨middle, first, released⟩ := bind_ok.mp released
    exact (release first).trans (ih released)

theorem writeShape (writes : writeShape shape slot addr memory = .ok memory') :
    memory.Ages memory' := by
  obtain ⟨layout, known⟩ : ∃ layout, shape.layout = .ok layout := by
    cases shape with
    | int | half | float | double | pointer | slice => exact ⟨_, rfl⟩
    | void => cases writes
    | undefined name => cases slot <;> cases writes
    | array elem count =>
      cases slot with
      | aggregate items =>
        have few : count ≤ Shape.capacity := few_of_writes writes
        rw [Machine.writeShape, if_neg (Nat.not_lt.mpr few), bind_ok] at writes
        obtain ⟨stride, sized, -⟩ := writes
        unfold sizeOfShape at sized
        split at sized
        · next known => exact ⟨_, by rw [Shape.layout, known]; rfl⟩
        · contradiction
      | _ => cases writes
    | struct name fields packed =>
      cases slot with
      | aggregate items =>
        simp only [Machine.writeShape, bind_ok] at writes
        obtain ⟨offsets, placed, -⟩ := writes
        unfold fieldOffsets at placed
        split at placed
        · next known => exact ⟨_, by rw [Shape.layout, known]; rfl⟩
        · contradiction
      | _ => cases writes
  exact of_keeps (writeShape_writes known writes).keeps

end Ages
end Memory

structure Store.Grows (store store' : Store) : Prop where
  memory : store.memory.Ages store'.memory
  symbols : store.symbols <+: store'.symbols

theorem Store.Grows.refl (store : Store) : store.Grows store := ⟨.refl _, prefix_rfl⟩

theorem Store.Grows.trans {store store' store'' : Store} (early : store.Grows store')
    (late : store'.Grows store'') :
    store.Grows store'' := ⟨early.memory.trans late.memory, early.symbols.trans late.symbols⟩

section
variable (image : Image) (frame : Frame) (val : Value)

/-- The value is evaluated between two stores. -/
def Evaluates (slot : Slot) (store store' : Store) : Prop :=
  ∃ early late, store.Grows early ∧ (eval image frame val).run early = .ok (slot, late) ∧ late.Grows store'

end

/-- The action has only such results. It evaluates the values, and it only adds to the store. -/
def Visits {α : Type} (image : Image) (frame : Frame) (values : List Value) (post : α → Prop)
    (action : Exec α) : Prop :=
  ∀ ⦃store res store'⦄, action.run store = .ok (res, store') →
    post res ∧ store.Grows store' ∧ ∀ val ∈ values, ∃ slot, Evaluates image frame val slot store store'

def Control.slots : Control → List UInt64
  | .running frame callers => (frame :: callers.map (·.frame)).flatMap Frame.slots
  | .returned _ => []

variable {image : Image} {frame : Frame} {values : List Value}

namespace Visits
variable {α β : Type} {post : α → Prop} {post' : β → Prop} {next : α → Exec β} {action : Exec α}

theorem mono (visits : Visits image frame more post action) (sub : ∀ val ∈ values, val ∈ more) :
    Visits image frame values post action := by
  intro store res store' ran
  obtain ⟨holds, grows, evaluated⟩ := visits ran
  exact ⟨holds, grows, fun val mem => evaluated val (sub val mem)⟩

theorem pure {val : α} (holds : post val) : Visits image frame [] post (Pure.pure val) := by
  rintro store _ _ ⟨⟩
  exact ⟨holds, .refl _, forall_mem_nil _⟩

theorem bind {values' : List Value} (first : Visits image frame values post action)
    (andThen : ∀ val, post val → Visits image frame values' post' (next val)) :
    Visits image frame (values ++ values') post' (action >>= next) := by
  intro store res store' ran
  obtain ⟨middle, store'', early, late⟩ := run_bind_ok.mp ran
  obtain ⟨holds, grows, evaluated⟩ := first early
  obtain ⟨holds', grows', evaluated'⟩ := andThen middle holds late
  refine ⟨holds', grows.trans grows', forall_mem_append.mpr ⟨fun val mem => ?_, fun val mem => ?_⟩⟩
  · obtain ⟨slot, early, late, before, known, behind⟩ := evaluated val mem
    exact ⟨slot, early, late, before, known, behind.trans grows'⟩
  · obtain ⟨slot, early, late, before, known, behind⟩ := evaluated' val mem
    exact ⟨slot, early, late, grows.trans before, known, behind⟩

theorem fail (cause : Fault) : Visits image frame values post (Machine.fail cause : Exec α) := by
  rintro store _ _ ⟨⟩

theorem attempt (x : Except Fault α) : Visits image frame [] (fun _ => True) (attempt x) := by
  cases x with
  | ok val => exact .pure trivial
  | error cause => exact .fail cause

theorem attemptLayout (x : Except Ir.LayoutError α) :
    Visits image frame [] (fun _ => True) (attemptLayout x) := by
  cases x with
  | ok val => exact .pure trivial
  | error cause => exact .fail (.layout cause)

theorem check {cond : Prop} [Decidable cond] {next : Unit → Exec α}
    (onward : ∀ passed, Visits image frame values post (next passed)) :
    Visits image frame values post (if cond then Machine.fail cause >>= next else next ()) := by
  split
  · rintro store _ _ ⟨⟩
  · exact onward ()

theorem get : Visits image frame [] (fun _ => True) (MonadState.get : Exec Store) := by
  rintro store _ _ ⟨⟩
  exact ⟨trivial, .refl _, forall_mem_nil _⟩

theorem print (bytes : List UInt8) : Visits image frame [] (fun _ => True) (print bytes) := by
  rintro store _ _ ⟨⟩
  exact ⟨trivial, ⟨.refl _, prefix_rfl⟩, forall_mem_nil _⟩

theorem functionAddress (sym : String) :
    Visits image frame [] (fun _ => True) (functionAddress sym) := by
  refine fun store val store' ran => ⟨trivial, ?_, forall_mem_nil _⟩
  obtain ⟨_, _, got, ran⟩ := run_bind_ok.mp ran
  cases got
  dsimp only at ran
  split at ran
  · cases ran
    exact .refl _
  · cases ran
    exact ⟨.refl _, prefix_append ..⟩

theorem change {outcome : Memory → Except Fault β} {memory : β → Memory} {next : β → Exec α}
    (ages : ∀ before res, outcome before = .ok res → before.Ages (memory res))
    (andThen : ∀ res, Visits image frame [] post (next res)) :
    Visits image frame [] post (do
      let res ← Machine.attempt (outcome (← MonadState.get).memory)
      modify fun store => { store with memory := memory res }
      next res) := by
  intro store val store' ran
  obtain ⟨_, _, got, ran⟩ := run_bind_ok.mp ran
  cases got
  obtain ⟨res, middle, attempted, ran⟩ := run_bind_ok.mp ran
  cases known : outcome store.memory with
  | error cause =>
    rw [known] at attempted
    cases attempted
  | ok found =>
    rw [known] at attempted
    cases attempted
    obtain ⟨_, _, modified, ran⟩ := run_bind_ok.mp ran
    cases modified
    obtain ⟨holds, grows, -⟩ := andThen _ ran
    have first : store.Grows { store with memory := memory res } := ⟨ages _ _ known, prefix_rfl⟩
    exact ⟨holds, first.trans grows, forall_mem_nil _⟩

end Visits

section
variable (image : Image) (frame : Frame) (val : Value)

theorem eval_visits : Visits image frame [val] (fun _ => True) (eval image frame val) := by
  have grows : Visits image frame [] (fun _ => True) (eval image frame val) := by
    unfold eval
    split
    · split
      · exact .pure trivial
      · exact .fail _
    · split
      · exact .pure trivial
      · exact .fail _
    · exact .pure trivial
    · exact .pure trivial
    · exact .pure trivial
    · exact .attemptLayout _
    · split
      · exact .pure trivial
      · exact .fail _
    · exact (Visits.functionAddress _).bind fun _ _ => .pure trivial
  intro store slot store' known
  refine ⟨trivial, (grows known).2.1, forall_mem_singleton.mpr ?_⟩
  exact ⟨slot, store, store', .refl _, known, .refl _⟩

theorem evalWord_visits : Visits image frame [val] (fun _ => True) (evalWord image frame val) :=
  (eval_visits image frame val).bind fun slot _ => .attempt slot.word

theorem evalList_visits (values : List Value) :
    Visits image frame values (fun _ => True) (evalList image frame values) := by
  induction values with
  | nil => exact .pure trivial
  | cons val values ih =>
    exact ((eval_visits image frame val).bind fun _ _ => ih.bind fun _ _ => .pure trivial).mono (by simp)

theorem evalIndex_visits : Visits image frame [val] (fun _ => True) (evalIndex image frame val) :=
  (evalWord_visits image frame val).bind fun _ _ => .pure trivial

theorem followIndices_visits (shape : Shape) (values : List Value) (off : UInt64) :
    Visits image frame values (fun _ => True) (followIndices image frame shape values off) := by
  induction values generalizing shape off with
  | nil => exact .pure trivial
  | cons val values ih =>
    refine (evalIndex_visits image frame val).bind fun idx _ => ?_
    refine .check fun _ => (Visits.attemptLayout _).bind fun part _ => ?_
    split
    · exact ih _ _
    · exact .fail _

theorem elementOffset_visits (base : IrType) (values : List Value) :
    Visits image frame values (fun _ => True) (elementOffset image frame base values) := by
  cases values with
  | nil => exact .pure trivial
  | cons first rest =>
    exact (Visits.attemptLayout _).bind fun _ _ => (evalIndex_visits image frame first).bind fun _ _ =>
      followIndices_visits image frame _ rest _

/-- An instruction evaluates its operands. All but `alloca` keep the slots. -/
theorem perform_visits {instr : Instruction}
    (plain : ∀ res callee ty args, instr ≠ .call res callee ty args) :
    Visits image frame instr.operands (fun frame' => instr.isAlloca = false →
      frame'.slots = frame.slots)
      (perform image frame instr) := by
  have same {place : Nat} {slot : Slot} : instr.isAlloca = false → (frame.assign place slot).slots = frame.slots :=
    fun _ => rfl
  cases instr with
  | alloca res ty =>
    refine (Visits.attemptLayout _).bind fun size _ => ?_
    exact .change (fun _ _ made => .allocate made) fun _ => .pure fun plain => by contradiction
  | load res ty ptr =>
    exact (evalWord_visits image frame ptr).bind fun _ _ => Visits.get.bind fun _ _ =>
      (Visits.attempt _).bind fun _ _ => .pure same
  | store val ptr =>
    exact ((evalWord_visits image frame ptr).bind fun _ _ => (eval_visits image frame val).bind fun _ _ =>
      .change (fun _ _ written => .writeShape written) fun _ => .pure fun _ => rfl).mono
      (by simp [Instruction.operands])
  | elementPtr res base ptr indices =>
    exact ((evalWord_visits image frame ptr).bind fun _ _ =>
      (elementOffset_visits image frame base indices).bind fun _ _ => .pure same).mono
      (by simp [Instruction.operands])
  | binary res op left right | compare res predicate left right =>
    exact (eval_visits image frame left).bind fun _ _ => (eval_visits image frame right).bind fun _ _ =>
      (Visits.attempt _).bind fun _ _ => .pure same
  | cast res op val tgt =>
    exact (eval_visits image frame val).bind fun _ _ => (Visits.attempt _).bind fun _ _ => .pure same
  | extractValue res ty aggregate idx =>
    refine (eval_visits image frame aggregate).bind fun slot _ => ?_
    split
    · split
      · exact .pure same
      · exact .fail _
    · exact .fail _
  | insertValue res aggregate val idx =>
    refine (eval_visits image frame aggregate).bind fun slot _ => ?_
    split
    · refine (eval_visits image frame val).bind fun _ _ => ?_
      split
      · exact .pure same
      · exact .fail _
    · exact .fail _
  | call res callee ty args => exact absurd rfl (plain res callee ty args)

theorem calleeSymbol_visits {callee : Value} (indirect : ∀ val ∈ values, val = callee ∧
    ∀ sym, callee.operand ≠ .function sym) :
    Visits image frame values (fun _ => True) (calleeSymbol image frame callee) := by
  unfold calleeSymbol
  split
  · next sym direct =>
    have none : values = [] := eq_nil_iff_forall_not_mem.mpr fun val mem => (indirect val mem).2 sym direct
    rw [none]
    exact .pure trivial
  · refine Visits.mono ?_ fun val mem => mem_singleton.mpr (indirect val mem).1
    refine (evalWord_visits image frame callee).bind fun addr _ => .check fun _ => Visits.get.bind fun store _ => ?_
    split
    · exact .pure trivial
    · exact .fail _

theorem routineArgument_visits (name : String) (args : List Slot) (idx : Nat) :
    Visits image frame [] (fun _ => True) (routineArgument name args idx) := by
  unfold routineArgument
  split
  · exact .attempt _
  · exact .fail _

theorem callRoutine_visits (name : String) (args : List Slot) :
    Visits image frame [] (fun _ => True) (callRoutine name args) := by
  have argument := routineArgument_visits image frame name args 0
  unfold callRoutine
  split
  · exact Visits.get.bind fun _ _ => argument.bind fun _ _ => (Visits.attempt _).bind fun _ _ =>
      (Visits.print _).bind fun _ _ => .pure trivial
  · exact argument.bind fun _ _ => (Visits.print _).bind fun _ _ => .pure trivial
  · exact Visits.get.bind fun _ _ => argument.bind fun _ _ => (Visits.attempt _).bind fun _ _ =>
      (Visits.attempt _).bind fun _ _ => (Visits.print _).bind fun _ _ => .pure trivial
  · exact Visits.get.bind fun _ _ => argument.bind fun _ _ => (Visits.attempt _).bind fun _ _ => .pure trivial
  · exact argument.bind fun _ _ => .change (fun _ _ made => .allocate made) fun _ => .pure trivial
  · exact argument.bind fun _ _ => .change (fun _ _ released => .release released) fun _ => .pure trivial
  · exact .fail _
  · refine argument.bind fun _ _ => ?_
    rintro store _ _ ⟨⟩
  · exact .fail _

variable (maxDepth : Nat)

theorem enter_visits (depth : Nat) (home : Linked) (fn : Ir.Function) (args : List Slot) :
    Visits image frame [] (fun entered : Frame => entered.slots = [])
      (enter maxDepth depth home fn args) := by
  unfold enter
  refine .check fun _ => ?_
  split
  · next entered found =>
    obtain ⟨block, -, rfl⟩ := Option.map_eq_some_iff.mp found
    exact .pure rfl
  · exact .fail _

/-- Go to the target, or to the routine of the symbol if there is none. -/
def dispatch (frame : Frame) (callers : List Caller) (res : Option Nat) (sym : String)
    (tgt : Option (Linked × Ir.Function)) (args : List Slot) : Exec Control :=
  match tgt with
  | some (home, fn) => do
    let entered ← enter maxDepth (callers.length + 1) home fn args
    return .running entered (⟨frame, res⟩ :: callers)
  | none => do
    let val ← callRoutine sym args
    return .running (frame.assign? res val) callers

def invoke (frame : Frame) (callers : List Caller) (res : Option Nat) (sym : String)
    (tgt : Option (Linked × Ir.Function)) (args : List Value) : Exec Control := do
  dispatch maxDepth frame callers res sym tgt (← evalList image frame args)

variable (callers : List Caller)

theorem performCall_eq (res : Option Nat) (callee : Value) (args : List Value) :
    performCall image maxDepth frame callers res callee args = (do
      let sym ← calleeSymbol image frame callee
      invoke image maxDepth frame callers res sym (image.definition? frame.home sym) args) := rfl

theorem slots_assign? (res : Option Nat) (slot : Slot) :
    (frame.assign? res slot).slots = frame.slots := by
  cases res <;> rfl

theorem performCall_visits (indirect : ∀ val ∈ values, val = callee ∧
      ∀ sym, callee.operand ≠ .function sym) (res : Option Nat) (args : List Value) :
    Visits image frame (values ++ args) (fun control => ∃ frame' callers',
      control = .running frame' callers' ∧
        control.slots = (Control.running frame callers).slots)
      (performCall image maxDepth frame callers res callee args) := by
  refine (calleeSymbol_visits image frame indirect).bind fun sym _ => Visits.mono
    ((evalList_visits image frame args).bind fun slots _ => (?_ : Visits image frame [] _ _)) (by simp)
  split
  · refine (enter_visits image frame maxDepth _ _ _ _).bind fun entered empty => .pure ⟨_, _, rfl, ?_⟩
    simp [Control.slots, empty]
  · refine (callRoutine_visits image frame sym slots).bind fun val _ => .pure ⟨_, _, rfl, ?_⟩
    simp [Control.slots, slots_assign?]

def returned (frame : Frame) : Option Value → Exec Slot
  | some val => eval image frame val
  | none => return .void

theorem performReturn_eq (val : Option Value) :
    performReturn image frame callers val = do
      let slot ← returned image frame val
      let memory ← attempt ((← get).memory.releaseAll frame.slots)
      modify fun store => { store with memory }
      return resume callers slot := by
  cases val <;> cases callers <;> rfl

theorem jump_visits (tgt : Nat) :
    Visits image frame [] (fun frame' : Frame => frame'.slots = frame.slots) (frame.jump tgt) := by
  unfold Frame.jump
  split
  · exact .pure rfl
  · exact .fail _

theorem leaveBlock_visits :
    Visits image frame ((frame.block.terminator.map Ir.Terminator.operands).getD [])
    (fun _ => True) (leaveBlock image frame callers) := by
  unfold leaveBlock
  split
  · next ends =>
    rw [ends]
    exact (jump_visits image frame _).bind fun _ _ => .pure trivial
  · next ends =>
    rw [ends]
    exact (evalWord_visits image frame _).bind fun _ _ => (jump_visits image frame _).bind fun _ _ => .pure trivial
  · next val ends =>
    have returns : Visits image frame ((Ir.Terminator.ret val).operands) (fun _ => True)
        (returned image frame val) := by
      cases val with
      | none => exact .pure trivial
      | some val => exact eval_visits image frame val
    rw [ends, performReturn_eq]
    exact (returns.bind fun slot _ => .change (fun _ _ released => .releaseAll released) fun _ => .pure trivial).mono
      (by simp)
  · exact .fail _

end

/-- Operands that the next step evaluates. The callee of a direct call is not one. -/
def State.operands (state : State) : List Value :=
  match state.frame.block.instructions with
  | [] => (state.frame.block.terminator.map Ir.Terminator.operands).getD []
  | .call _ callee _ args :: _ => match callee.operand with
    | .function _ => args
    | _ => callee :: args
  | instr :: _ => instr.operands

/-- A step evaluates its operands, and it only adds to the store. -/
theorem next_visits {control : Control} (steps : next image depth a = .ok (control, store)) :
    a.store.Grows store ∧
      ∀ val ∈ a.operands, ∃ slot, Evaluates image a.frame val slot a.store store := by
  unfold State.operands
  split
  · next code =>
    rw [next_leave code] at steps
    exact (leaveBlock_visits image a.frame a.callers steps).2
  · next res callee ty args rest code =>
    rw [next_call code] at steps
    split
    · exact (performCall_visits image (a.frame.behind rest) depth a.callers (forall_mem_nil _) res args steps).2
    · next indirect =>
      refine (performCall_visits image (a.frame.behind rest) depth a.callers (forall_mem_singleton.mpr ?_) res args
        steps).2
      exact ⟨rfl, fun sym direct => indirect sym direct⟩
  · next instr rest plain code =>
    rw [next_perform code plain, map_ok] at steps
    obtain ⟨⟨frame, _⟩, performs, steps⟩ := steps
    cases steps
    exact (perform_visits image (a.frame.behind rest) plain performs).2

/-- So many steps lead from one state to another. -/
inductive Walk (image : Image) (depth : Nat) : Nat → State → State → Prop
  | here (state : State) : Walk image depth 0 state state
  | step {n : Nat} {a c : State} {frame : Frame} {callers : List Caller} {store : Store}
      (steps : next image depth a = .ok (.running frame callers, store))
      (rest : Walk image depth n ⟨frame, callers, store⟩ c) : Walk image depth (n + 1) a c

theorem Walk.grows {depth n : Nat} (walk : Walk image depth n a c) : a.store.Grows c.store := by
  induction walk with
  | here => exact .refl _
  | step steps _ ih => exact (next_visits steps).1.trans ih

end Machine
end TernLang
