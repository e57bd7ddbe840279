import TernLang.Proofs.Core.Environment

/-! Calls between functions of the core. If the functions that are called run as the source says,
then so does the call: it goes on behind with the result, and with its own slots as they were. -/
namespace TernLang.Core

open Ir (Builder Instruction)
open Machine (Frame Caller Linked Slot Store Image Standing Calm resume regionLimit)
open Success

def resultSlot : Option Datum → Slot
  | some datum => datum.slot
  | none => .void

def ResultTyped (fn : Function) : Option Datum → Prop
  | some datum => fn.result = datum.scalar.type
  | none => fn.result = .void

section
variable (image : Image) (depth : Nat)

/-- The machine is about to return a result to the callers, whose regions it has left alone. -/
structure Returns (fn : Function) (callers : List Caller) (store : Store) (res : Option Datum)
    (m : Machine.State) : Prop where
  typed : ResultTyped fn res
  calm : Calm m
  next : ∃ memory,
    Machine.next image depth m = .ok (resume callers (resultSlot res), { store with memory }) ∧
    store.memory.count ≤ memory.count ∧ memory.count ≤ m.store.memory.count ∧
      memory.count ≤ regionLimit ∧
    ∀ num < store.memory.count, memory.regions.get? num = store.memory.regions.get? num

/-- Every function runs as the source says when it is called with that much fuel. -/
def FunctionsRun (home : Linked) (prog : Program) (fuel : Nat) : Prop :=
  ∀ fn ∈ prog.functions, ∀ args : List Datum, fn.paramTypes = args.map (·.scalar.type) →
    ∃ body, home.definition? (Signature.ofFunction fn none).symbol = some body ∧
      ∀ callers store, Standing store.memory store.memory.count (callers.map (·.frame)) →
        store.memory.count ≤ regionLimit →
        ∃ frame, Frame.enter? home body (args.map Datum.slot) = some frame ∧
          Simulates image depth (callers.length + fuel) fuel ⟨frame, callers, store⟩
            (callFunction prog fuel fn args) (Returns image depth fn callers store)

end

variable {image : Image} {depth fuel n : Nat} {home : Linked} {prog : Program} {act : Activation}
  {m : Machine.State} {b : Builder} {values : List Ir.Value} {data : List Datum}
  {ty : Ir.FunctionType} {res : Option Nat}

theorem evalList_holds (holds : List.Forall₂ (Activation.Holds image n frame) values data)
    (frame' : Frame) (agrees : Activation.Agrees n frame frame') (store : Store) :
    (Machine.evalList image frame' values).run store = .ok (data.map Datum.slot, store) := by
  induction holds with
  | nil => rfl
  | cons first _ ih =>
    rw [Machine.evalList, run_bind_of_ok (first.eval frame' agrees store), run_bind_of_ok ih]
    rfl

theorem next_enter (depth : Nat)
    (code : m.frame.block.instructions = .call res (.function sym) ty values :: rest)
    (holds : List.Forall₂ (Activation.Holds image n m.frame) values data)
    (defined : m.frame.home.definition? sym = some body)
    (enters : Frame.enter? m.frame.home body (data.map Datum.slot) = some frame) :
    Machine.next image depth m = if m.callers.length + 1 ≥ depth then
        .error (.fault (.callDepth depth body.symbol))
      else .ok (.running frame (⟨m.frame.behind rest, res⟩ :: m.callers), m.store) := by
  have evaluated := evalList_holds holds (m.frame.behind rest) (.behind ..) m.store
  have found : image.definition? (m.frame.behind rest).home sym = some (m.frame.home, body) := by
    rw [Image.definition?, show (m.frame.behind rest).home = m.frame.home from rfl, defined]
  rw [Machine.next_call code, Machine.performCall,
    run_bind_of_ok (show (Machine.calleeSymbol image (m.frame.behind rest) (.function sym)).run m.store =
      .ok (sym, m.store) from rfl), run_bind_of_ok evaluated, found]
  simp only [Machine.enter, enters]
  split <;> rfl

/-- A call and its return. The register of the result, if there is one, is a new one. -/
theorem Activation.Here.calls (run : FunctionsRun image depth home prog fuel) (here : act.Here b m)
    (inside : b.current ≠ 0) (same : act.home = home) (known : fn ∈ prog.functions)
    (types : fn.paramTypes = data.map (·.scalar.type))
    (holds : List.Forall₂ (Activation.Holds image n m.frame) values data)
    (grows : (b.appended next [.call res (.function (Signature.ofFunction fn none).symbol) ty
      values]).Grows act.final) (fresh : ∀ reg, res = some reg → reg = b.nextRegister) :
    Simulates image depth (act.callers.length + fuel + 1) fuel m (callFunction prog fuel fn data)
      fun outcome m' => ResultTyped fn outcome ∧
        act.Moves b.nextRegister (b.appended next [.call res
          (.function (Signature.ofFunction fn none).symbol) ty values]) m m' ∧
        ∀ reg, res = some reg → m'.frame.registers.get? reg = some (resultSlot outcome) := by
  obtain ⟨body, defined, enters⟩ := run fn known data types
  obtain ⟨rest, code, ⟨full, there, mem⟩, after⟩ := here.code grows
  have running := here.1
  have standing : Standing m.store.memory m.store.memory.count
      ((⟨m.frame.behind rest, res⟩ :: m.callers : List Caller).map (·.frame)) := running.standing
  obtain ⟨frame, entered, simulates⟩ := enters _ m.store standing running.small
  rw [← same, ← running.home] at defined entered
  have stepped := next_enter depth code holds defined entered
  split at stepped
  · next deep =>
    refine .inl (.inr ⟨0, m, _, .here m, running.calm, stepped, ?_⟩)
    rw [← running.callers]
    omega
  · have bound : (⟨m.frame.behind rest, res⟩ :: m.callers : List Caller).length + fuel =
        act.callers.length + fuel + 1 := by
      rw [← running.callers, List.length_cons]
      omega
    rw [bound] at simulates
    refine .step (.one running.calm stepped (Nat.le_succ _)) (simulates.andThen fun outcome m' _ returns => ?_)
    obtain ⟨memory, returned, more, few, small, regions⟩ := returns.next
    obtain ⟨registers, assigned, values⟩ := (m.frame.behind rest).assign?_eq res (resultSlot outcome)
    rw [resume, assigned] at returned
    refine ⟨1, _, .one returns.calm returned (Nat.le_succ_of_le few), returns.typed,
      ⟨after _ ?_ rfl, ⟨rfl, rfl, fun reg small => ?_⟩, fun num small => ?_⟩, fun reg found => ?_⟩
    · refine running.next rfl rfl rfl rfl rfl (fun reg slot => ?_) rfl more small (fun num less => ?_)
        fun num less => ?_
      · refine (values reg).trans (if_neg fun found => ?_)
        exact act.not_mem_slots there inside mem found slot
      · exact regions num (by have := running.enough; omega)
      · exact congrArg (Option.map (·.size)) (regions num (Nat.lt_of_lt_of_le less running.enough))
    · refine (values reg).trans (if_neg fun found => ?_)
      have := fresh reg found
      omega
    · exact regions num (Nat.lt_of_lt_of_le small running.enough)
    · exact (values reg).trans (if_pos found)

end TernLang.Core
