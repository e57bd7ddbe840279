import TernLang.Machine.Run
import TernLang.Proofs.Machine.Regions

/-! Runs as chains of steps. While the slots of all frames stand, a program that stops reports
what stopped it, so a chain of steps tells what a run under any limit gives. -/
namespace TernLang.Machine

open List

/-- Slots of all frames are different regions that are there, with numbers below a bound. -/
def Standing (memory : Memory) (bound : Nat) (frames : List Frame) : Prop :=
  ∃ numbers : List Nat, frames.flatMap Frame.slots = numbers.map regionAddress ∧ numbers.Nodup ∧
    ∀ num ∈ numbers, num < bound ∧ (memory.regions.get? num).isSome

variable {memory memory' : Memory} {bound bound' : Nat} {frames : List Frame}

theorem Standing.mono (standing : Standing memory bound frames) (le : bound ≤ bound')
    (kept : ∀ num < bound, (memory.regions.get? num).isSome → (memory'.regions.get? num).isSome) :
    Standing memory' bound' frames := by
  obtain ⟨numbers, same, distinct, live⟩ := standing
  refine ⟨numbers, same, distinct, fun num mem => ?_⟩
  obtain ⟨small, there⟩ := live num mem
  exact ⟨Nat.lt_of_lt_of_le small le, kept num small there⟩

theorem Standing.cons (standing : Standing memory bound frames) {numbers : List Nat}
    (same : frame.slots = numbers.map regionAddress) (distinct : numbers.Nodup)
    (live : ∀ num ∈ numbers, bound ≤ num ∧ num < bound' ∧ (memory.regions.get? num).isSome)
    (le : bound ≤ bound') : Standing memory bound' (frame :: frames) := by
  obtain ⟨others, same', distinct', live'⟩ := standing
  refine ⟨numbers ++ others, ?_, ?_, ?_⟩
  · rw [flatMap_cons, same, same', map_append]
  · refine nodup_append.mpr ⟨distinct, distinct', fun a here b there => ?_⟩
    have := (live a here).1
    have := (live' b there).1
    omega
  · intro num mem
    rcases mem_append.mp mem with here | there
    · exact (live num here).2
    · obtain ⟨small, found⟩ := live' num there
      exact ⟨Nat.lt_of_lt_of_le small le, found⟩

theorem unwind_standing (standing : Standing memory bound frames) (small : bound ≤ regionLimit)
    (halt : Halt) :
    unwind frames memory halt = halt := by
  induction frames generalizing memory with
  | nil => rfl
  | cons frame frames ih =>
    obtain ⟨numbers, same, distinct, live⟩ := standing
    obtain ⟨own, others, rfl, here, there⟩ := map_eq_append_iff.mp same.symm
    obtain ⟨distinct, distinct', apart⟩ := nodup_append.mp distinct
    obtain ⟨memory', released, -, regions⟩ := Memory.releaseAll_regionAddress distinct fun num mem => by
      obtain ⟨below, found⟩ := live num (mem_append_left _ mem)
      exact ⟨Nat.lt_of_lt_of_le below small, found⟩
    rw [unwind, ← here, released]
    refine ih ⟨others, there.symm, distinct', fun num mem => ?_⟩
    obtain ⟨below, found⟩ := live num (mem_append_right _ mem)
    rw [regions, if_neg fun mine => apart num mine num mem rfl]
    exact ⟨below, found⟩

/-- A program that stops here reports what stopped it. -/
def Calm (state : State) : Prop := ∀ halt, unwind state.frames state.store.memory halt = halt

theorem stop_fault (calm : Calm state) (cause : Fault) :
    stop state (.fault cause) = .error cause := by
  rw [stop, calm, ite_self]
  rfl

section
variable (image : Image) (maxDepth : Nat)

def next (state : State) : Except Halt (Control × Store) :=
  (advance image maxDepth state.frame state.callers).run state.store

/-- So many steps lead from one state to another, and none makes more than one region. -/
inductive Reach : Nat → State → State → Prop
  | here (state : State) : Reach 0 state state
  | step {n : Nat} {state final : State} {frame : Frame} {callers : List Caller} {store : Store}
      (calm : Calm state) (steps : next image maxDepth state = .ok (.running frame callers, store))
      (few : store.memory.count ≤ state.store.memory.count + 1)
      (rest : Reach n ⟨frame, callers, store⟩ final) : Reach (n + 1) state final

end

variable {image : Image} {maxDepth n m : Nat} {a b c : State} {limits : Limits}

theorem Reach.trans (first : Reach image maxDepth n a b) (second : Reach image maxDepth m b c) :
    Reach image maxDepth (n + m) a c := by
  induction first with
  | here => rwa [Nat.zero_add]
  | @step n _ _ _ _ _ calm steps few rest ih =>
    rw [Nat.add_right_comm]
    exact .step calm steps few (ih second)

theorem Reach.one (calm : Calm a)
    (steps : next image maxDepth a = .ok (.running frame callers, store))
    (few : store.memory.count ≤ a.store.memory.count + 1) :
    Reach image maxDepth 1 a ⟨frame, callers, store⟩ :=
  .step calm steps few (.here _)

theorem Reach.count_le (reach : Reach image maxDepth n a b) :
    b.store.memory.count ≤ a.store.memory.count + n := by
  induction reach with
  | here => exact Nat.le_refl _
  | step _ _ few _ ih =>
    dsimp only at ih
    omega

section
variable (reach : Reach image limits.depth n a b)
include reach

theorem Reach.run (res : IrType) (k : Nat) :
    Machine.run image limits res (n + k) a = Machine.run image limits res k b := by
  induction reach with
  | here => rw [Nat.zero_add]
  | step calm steps _ rest ih =>
    rw [Nat.add_right_comm, Machine.run]
    unfold next at steps
    rw [steps]
    exact ih

theorem Reach.run_limit (res : IrType) (few : k < n) :
    Machine.run image limits res k a = .error (.stepLimit limits.steps) := by
  induction reach generalizing k with
  | here => omega
  | step calm steps _ rest ih =>
    cases k with
    | zero => exact stop_fault calm _
    | succ k =>
      rw [Machine.run]
      unfold next at steps
      rw [steps]
      exact ih (by omega)

theorem Reach.run_few (calm : Calm b) (res : IrType) (few : k ≤ n) :
    Machine.run image limits res k a = .error (.stepLimit limits.steps) := by
  rcases Nat.lt_or_eq_of_le few with less | rfl
  · exact reach.run_limit res less
  · exact (reach.run res 0).trans (stop_fault calm _)

end

theorem Reach.run_fault (limits : Limits) (reach : Reach image limits.depth n a b) (calm : Calm b)
    (faults : next image limits.depth b = .error (.fault cause)) (res : IrType) (k : Nat) :
    Machine.run image limits res k a = .error (if k ≤ n then .stepLimit limits.steps else cause) :=
      by
  split
  · next few => exact reach.run_few calm res few
  · next enough =>
    obtain ⟨more, rfl⟩ := Nat.exists_eq_add_of_lt (Nat.lt_of_not_le enough)
    rw [Nat.add_assoc, reach.run, Machine.run]
    unfold next at faults
    rw [faults]
    exact stop_fault calm cause

theorem Reach.run_returned (limits : Limits) (reach : Reach image limits.depth n a b)
    (calm : Calm b) (returns : next image limits.depth b = .ok (.returned val, store))
    (res : IrType) (k : Nat) :
    Machine.run image limits res k a = if k ≤ n then .error (.stepLimit limits.steps)
      else .ok ⟨exitCode res val, store.output.reverse⟩ := by
  split
  · next few => exact reach.run_few calm res few
  · next enough =>
    obtain ⟨more, rfl⟩ := Nat.exists_eq_add_of_lt (Nat.lt_of_not_le enough)
    rw [Nat.add_assoc, reach.run, Machine.run]
    unfold next at returns
    rw [returns]
    rfl

end TernLang.Machine
