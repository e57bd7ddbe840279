import TernLang.Proofs.Machine.Growth

/-! Runs under different limits. Both take the same steps until the lower limits stop one of them.
That run then reports its limit, unless the program has freed stack slots itself: slots are released
when a frame ends, and a release that fails takes the place of what ended the frame. Such slots are
never there again, so the other run ends with a failed release too, though it need not be the same
one. -/
namespace TernLang.Machine

open List
open Ir (Value Instruction)
open Success

/-! Releasing. -/

theorem regionAddress_le (num : Nat) : (regionAddress num).toNat ≤ (num + 1) * 2 ^ 32 := by
  simp only [regionAddress, Nat.toUInt64, UInt64.toNat_shiftLeft, UInt64.toNat_ofNat', Nat.shiftLeft_eq]
  refine Nat.le_trans (Nat.mod_le _ _) (Nat.mul_le_mul (Nat.mod_le _ _) (Nat.le_refl _))

theorem regionAddress_mod (num : Nat) : (regionAddress num).toNat % 2 ^ 32 = 0 := by
  simp only [regionAddress, Nat.toUInt64, UInt64.toNat_shiftLeft, UInt64.toNat_ofNat', Nat.shiftLeft_eq]
  rw [show (32 : UInt64).toNat % 64 = 32 from rfl]
  omega

def Fault.OfRelease : Fault → Prop
  | invalidFree _ | functionAsData => True
  | _ => False

variable {cause : Fault} {bound : Nat}

namespace Memory
variable {memory memory' : Memory}

theorem releaseAll_append (memory : Memory) (first second : List UInt64) :
    memory.releaseAll (first ++ second) = memory.releaseAll first >>= fun middle =>
      middle.releaseAll second := by
  induction first generalizing memory with
  | nil => rfl
  | cons addr rest ih =>
    rw [cons_append, releaseAll, releaseAll, bind_assoc]
    exact bind_congr fun middle => ih middle

/-- Slots lie at the starts of regions with numbers below a bound. -/
def Made (bound : Nat) (slots : List UInt64) : Prop :=
  ∀ addr ∈ slots, ∃ num < bound, addr = regionAddress num

theorem release_fault (fails : memory.release (regionAddress num) = .error cause) :
    cause.OfRelease := by
  unfold release at fails
  split at fails
  · cases fails
  · next nonzero =>
    rcases bind_error.mp fails with splits | ⟨⟨num, off⟩, -, fails⟩
    · unfold split at splits
      split at splits
      · cases splits
        trivial
      · split at splits
        · next high =>
          -- an address without a number in it is null
          rw [UInt64.toNat_shiftRight, show (32 : UInt64).toNat % 64 = 32 from rfl] at high
          have low := regionAddress_mod num
          exact absurd (UInt64.toNat_inj.mp (show (regionAddress num).toNat = (0 : UInt64).toNat by
            rw [show (0 : UInt64).toNat = 0 from rfl]
            omega)) nonzero
        · cases splits
    · dsimp only at fails
      split at fails
      · cases fails
      · cases fails
        trivial

theorem releaseAll_fault (made : Made bound slots)
    (fails : memory.releaseAll slots = .error cause) : cause.OfRelease := by
  induction slots generalizing memory with
  | nil => cases fails
  | cons addr rest ih =>
    obtain ⟨first, others⟩ := forall_mem_cons.mp made
    rcases bind_error.mp fails with here | ⟨middle, -, later⟩
    · obtain ⟨num, -, rfl⟩ := first
      exact release_fault here
    · exact ih others later

/-- What can be released later can be released now, and so can any part of it. -/
theorem exists_releaseAll (part : slots.Sublist slots') (made : Made bound slots)
    {later later' : Memory}
    (live : ∀ num < bound, (later.regions.get? num).isSome → (memory.regions.get? num).isSome)
    (released : later.releaseAll slots' = .ok later') :
    ∃ memory', memory.releaseAll slots = .ok memory' := by
  induction part generalizing memory later with
  | slnil => exact ⟨memory, rfl⟩
  | cons addr part ih =>
    obtain ⟨middle, first, released⟩ := bind_ok.mp released
    refine ih made (fun num small there => live num small ?_) released
    rcases release_ok.mp first with ⟨-, rfl⟩ | ⟨freed, -, -, rfl⟩
    · exact there
    · exact (Sparse.isSome_erase.mp there).2
  | cons_cons addr part ih =>
    obtain ⟨⟨num, small, rfl⟩, others⟩ := forall_mem_cons.mp made
    obtain ⟨middle, first, released⟩ := bind_ok.mp released
    rcases release_ok.mp first with ⟨zero, rfl⟩ | ⟨freed, splits, alive, rfl⟩
    · obtain ⟨memory', rest⟩ := ih others live released
      refine ⟨memory', ?_⟩
      rw [releaseAll, release_ok.mpr (.inl ⟨zero, rfl⟩)]
      exact rest
    · have within : freed < bound := by
        have val := (split_ok.mp splits).2.2
        have := regionAddress_le num
        omega
      have kept : ∀ other < bound, ((later.regions.erase freed).get? other).isSome →
          ((memory.regions.erase freed).get? other).isSome := by
        intro other less there
        obtain ⟨apart, there⟩ := Sparse.isSome_erase.mp there
        exact Sparse.isSome_erase.mpr ⟨apart, live other less there⟩
      obtain ⟨memory', rest⟩ : ∃ memory', Memory.releaseAll { memory with regions := memory.regions.erase freed } _ =
        .ok memory' := ih others kept released
      refine ⟨memory', ?_⟩
      rw [releaseAll, release_ok.mpr (.inr ⟨freed, splits, live freed within alive, rfl⟩)]
      exact rest

end Memory

def State.slots (state : State) : List UInt64 := state.frames.flatMap Frame.slots

namespace State

def Clean (state : State) : Prop := ∃ memory, state.store.memory.releaseAll state.slots = .ok memory

def Sound (state : State) : Prop := Memory.Made state.store.memory.count state.slots

end State

/-- The slots of a program that stops are released, or releasing them is the fault it reports. -/
theorem unwind_cases (made : Memory.Made bound (frames.flatMap Frame.slots)) (memory : Memory)
    (halt : Halt) :
    (∃ memory', memory.releaseAll (frames.flatMap Frame.slots) = .ok memory') ∧
      unwind frames memory halt = halt ∨
    (¬ ∃ memory', memory.releaseAll (frames.flatMap Frame.slots) = .ok memory') ∧
      ∃ cause : Fault, cause.OfRelease ∧ unwind frames memory halt = .fault cause := by
  induction frames generalizing memory halt with
  | nil => exact .inl ⟨⟨memory, rfl⟩, rfl⟩
  | cons frame frames ih =>
    rw [flatMap_cons] at made ⊢
    have mine : Memory.Made bound frame.slots := fun addr mem => made addr (mem_append_left _ mem)
    have others : Memory.Made bound (frames.flatMap Frame.slots) :=
      fun addr mem => made addr (mem_append_right _ mem)
    rw [Memory.releaseAll_append, unwind]
    cases released : memory.releaseAll frame.slots with
    | ok middle => exact ih others middle halt
    | error cause =>
      refine .inr ⟨by simp [bind, Except.bind], ?_⟩
      rcases ih others memory (.fault cause) with ⟨-, same⟩ | ⟨-, failed⟩
      · exact ⟨cause, Memory.releaseAll_fault mine released, same⟩
      · exact failed

section
variable {state : State} (sound : state.Sound)
include sound

theorem stop_clean (clean : state.Clean) (cause : Fault) :
    stop state (.fault cause) = .error cause := by
  refine stop_fault (fun halt => ?_) cause
  rcases unwind_cases sound state.store.memory halt with ⟨-, same⟩ | ⟨dirty, -⟩
  · exact same
  · exact absurd clean dirty

theorem stop_dirty (dirty : ¬ state.Clean) {halt : Halt} (reported : halt.isPanic = false) :
    ∃ cause : Fault, cause.OfRelease ∧ stop state halt = .error cause := by
  rcases unwind_cases sound state.store.memory halt with ⟨clean, -⟩ | ⟨-, cause, released, same⟩
  · exact absurd clean dirty
  · refine ⟨cause, released, ?_⟩
    rw [stop, reported, same]
    rfl

end

/-! Steps. -/

/-- What a step does to the slots of the active frames. -/
inductive Effect (a b : State) : Prop
  | kept (same : b.slots = a.slots)
  | made {inner outer : List UInt64} (before : a.slots = inner ++ outer)
      (behind : b.slots = inner ++ regionAddress a.store.memory.count :: outer)
      (more : a.store.memory.count < b.store.memory.count)
  | released {inner : List UInt64} (before : a.slots = inner ++ b.slots)
      (gone : a.store.memory.releaseAll inner = .ok b.store.memory)

theorem sound_step (sound : a.Sound) (grows : a.store.Grows b.store) (effect : Effect a b) :
    b.Sound := by
  have older : ∀ addr ∈ a.slots, ∃ num < b.store.memory.count, addr = regionAddress num := by
    intro addr mem
    obtain ⟨num, small, same⟩ := sound addr mem
    exact ⟨num, Nat.lt_of_lt_of_le small grows.memory.count, same⟩
  intro addr mem
  cases effect with
  | kept same => exact older addr (same ▸ mem)
  | made before behind more =>
    rw [behind, mem_append, mem_cons] at mem
    rcases mem with inside | rfl | outside
    · exact older addr (before ▸ mem_append_left _ inside)
    · exact ⟨_, more, rfl⟩
    · exact older addr (before ▸ mem_append_right _ outside)
  | released before gone => exact older addr (before ▸ mem_append_right _ mem)

theorem clean_of_step {a b : State} (sound : a.Sound) (grows : a.store.Grows b.store)
    (effect : Effect a b) (clean : b.Clean) : a.Clean := by
  obtain ⟨memory, released⟩ := clean
  cases effect with
  | kept same => exact Memory.exists_releaseAll (same ▸ Sublist.refl _) sound grows.memory.live released
  | made before behind more =>
    refine Memory.exists_releaseAll ?_ sound grows.memory.live released
    rw [before, behind]
    exact (sublist_cons_self ..).append_left _
  | released before gone =>
    refine ⟨memory, ?_⟩
    rw [before, Memory.releaseAll_append, gone]
    exact released

section
variable (image : Image) (frame : Frame) (callers : List Caller)

theorem perform_alloca_ok {ty : IrType}
    (performs : (perform image frame (.alloca res ty)).run store = .ok (frame', store')) :
    frame'.slots = frame.slots ++ [regionAddress store.memory.count] ∧
      store.memory.count < store'.memory.count := by
  obtain ⟨size, _, sized, performs⟩ := run_bind_ok.mp performs
  cases known : frame.home.module.size ty with
  | error cause =>
    rw [known] at sized
    cases sized
  | ok found =>
    rw [known] at sized
    cases sized
    obtain ⟨_, _, got, performs⟩ := run_bind_ok.mp performs
    cases got
    cases made : store.memory.allocate size with
    | error cause =>
      rw [made] at performs
      cases performs
    | ok res =>
      obtain ⟨-, rfl⟩ := Memory.allocate_ok.mp made
      rw [made] at performs
      cases performs
      exact ⟨reverse_cons, Nat.lt_succ_self _⟩

theorem performReturn_ok {control : Control}
    (returns : (performReturn image frame callers val).run store = .ok (control, store')) :
    store.memory.releaseAll frame.slots = .ok store'.memory ∧
      ∃ slot, control = resume callers slot := by
  rw [performReturn_eq] at returns
  obtain ⟨slot, middle, valued, returns⟩ := run_bind_ok.mp returns
  have same : middle.memory = store.memory := by
    cases val with
    | none =>
      cases valued
      rfl
    | some val => exact memory_eval valued
  obtain ⟨_, _, got, returns⟩ := run_bind_ok.mp returns
  cases got
  cases released : middle.memory.releaseAll frame.slots with
  | error cause =>
    rw [released] at returns
    cases returns
  | ok memory =>
    rw [released] at returns
    cases returns
    rw [same] at released
    exact ⟨released, slot, rfl⟩

end

theorem slots_resume (callers : List Caller) (slot : Slot) :
    (resume callers slot).slots = (callers.map (·.frame)).flatMap Frame.slots := by
  cases callers with
  | nil => rfl
  | cons caller rest => simp [resume, Control.slots, slots_assign?]

section
variable {image : Image} {maxDepth : Nat} {a : State} {control : Control} {store : Store}

theorem slots_running {frame : Frame} (same : frame.slots = a.frame.slots) :
    (Control.running frame a.callers).slots = a.slots := by
  rw [Control.slots, flatMap_cons, same]
  rfl

/-- A step keeps all slots, makes one in the running frame, or returns from it. -/
theorem next_cases (steps : next image maxDepth a = .ok (control, store)) :
    (∃ frame callers, control = .running frame callers ∧ control.slots = a.slots) ∨
    (∃ frame, control = .running frame a.callers ∧ a.store.memory.count < store.memory.count ∧
      frame.slots = a.frame.slots ++ [regionAddress a.store.memory.count]) ∨
    a.store.memory.releaseAll a.frame.slots = .ok store.memory ∧
      ∃ slot, control = resume a.callers slot := by
  cases code : a.frame.block.instructions with
  | nil =>
    rw [next_leave code] at steps
    unfold leaveBlock at steps
    split at steps
    · obtain ⟨frame, _, jumped, steps⟩ := run_bind_ok.mp steps
      cases steps
      exact .inl ⟨frame, a.callers, rfl, slots_running (jump_visits image a.frame _ jumped).1⟩
    · obtain ⟨word, _, -, steps⟩ := run_bind_ok.mp steps
      obtain ⟨frame, _, jumped, steps⟩ := run_bind_ok.mp steps
      cases steps
      exact .inl ⟨frame, a.callers, rfl, slots_running (jump_visits image a.frame _ jumped).1⟩
    · exact .inr (.inr (performReturn_ok image a.frame a.callers steps))
    · cases steps
  | cons instr rest =>
    cases instr with
    | call res callee ty args =>
      rw [next_call code] at steps
      exact .inl (performCall_visits image (a.frame.behind rest) maxDepth a.callers (forall_mem_nil _) _ _ steps).1
    | alloca res ty =>
      rw [next_perform code (by simp), map_ok] at steps
      obtain ⟨⟨frame, _⟩, performs, steps⟩ := steps
      cases steps
      obtain ⟨new, more⟩ := perform_alloca_ok image _ performs
      exact .inr (.inl ⟨frame, rfl, more, new⟩)
    | _ =>
      rw [next_perform code (by simp), map_ok] at steps
      obtain ⟨⟨frame, _⟩, performs, steps⟩ := steps
      cases steps
      have kept := (perform_visits image (a.frame.behind rest) (by simp) performs).1 rfl
      exact .inl ⟨frame, a.callers, rfl, slots_running kept⟩

theorem clean_of_returned (steps : next image maxDepth a = .ok (.returned val, store)) :
    a.Clean := by
  rcases next_cases steps with ⟨_, _, running, -⟩ | ⟨_, running, -⟩ | ⟨released, slot, resumed⟩
  · cases running
  · cases running
  · have none : a.callers = [] := by
      cases known : a.callers with
      | nil => rfl
      | cons caller rest =>
        rw [known] at resumed
        cases resumed
    refine ⟨store.memory, ?_⟩
    rw [State.slots, State.frames, none]
    simpa using released

theorem next_effect {frame : Frame} {callers : List Caller}
    (steps : next image maxDepth a = .ok (.running frame callers, store)) :
    Effect a ⟨frame, callers, store⟩ := by
  rcases next_cases steps with ⟨_, _, -, same⟩ | ⟨_, running, more, new⟩ | ⟨released, slot, resumed⟩
  · exact .kept same
  · cases running
    refine .made rfl ?_ more
    rw [State.slots, State.frames, flatMap_cons, new, append_assoc]
    rfl
  · refine .released ?_ released
    have behind := slots_resume a.callers slot
    rw [← resumed] at behind
    exact congrArg (a.frame.slots ++ ·) behind.symm

end

/-! Depth. -/

/-- The first action does what the second one does, unless it lacks depth. -/
def Shortens {α : Type} (depth : Nat) (first second : Exec α) : Prop :=
  ∀ store, second.run store = first.run store ∨ ∃ sym, first.run store = .error (.fault (.callDepth depth sym))

namespace Shortens
variable {α β : Type} {depth : Nat}

theorem refl (action : Exec α) : Shortens depth action action := fun _ => .inl rfl

theorem bind {next next' : α → Exec β} (andThen : ∀ val, Shortens depth (next val) (next' val)) :
    Shortens depth (action >>= next) (action >>= next') := by
  intro store
  cases ran : action.run store with
  | error halt =>
    rw [run_bind_of_error ran, run_bind_of_error ran]
    exact .inl rfl
  | ok res =>
    rw [run_bind_of_ok ran, run_bind_of_ok ran]
    exact andThen _ _

theorem first (shortens : Shortens depth action action') (next : α → Exec β) :
    Shortens depth (action >>= next) (action' >>= next) := by
  intro store
  rcases shortens store with same | ⟨sym, fails⟩
  · rw [StateT.run_bind, same]
    exact .inl rfl
  · exact .inr ⟨sym, run_bind_of_error fails⟩

end Shortens

section
variable {depth depth' : Nat} (deeper : depth ≤ depth')
include deeper

theorem enter_shortens (active : Nat) (home : Linked) (fn : Ir.Function) (args : List Slot) :
    Shortens depth (enter depth active home fn args) (enter depth' active home fn args) := by
  intro store
  by_cases deep : active ≥ depth
  · refine .inr ⟨fn.symbol, ?_⟩
    rw [enter, if_pos deep]
    rfl
  · rw [enter, enter, if_neg deep, if_neg (by omega)]
    exact .inl rfl

theorem next_shortens (image : Image) (state : State) :
    next image depth' state = next image depth state ∨
    ∃ sym, next image depth state = .error (.fault (.callDepth depth sym)) := by
  refine (?_ : Shortens depth (advance image depth state.frame state.callers) (advance image depth' _ _)) state.store
  unfold advance
  split
  · exact .refl _
  · refine .bind fun sym => .bind fun args => ?_
    split
    · exact (enter_shortens deeper _ _ _ _).first _
    · exact .refl _
  · exact .refl _

end

/-! Runs. -/

/-- How a run of at most so many steps ends: the last of them returns or stops the program, or there
is none left. -/
inductive Ends (image : Image) (limits : Limits) (res : IrType) (steps : Nat) (start : State) :
    Except Fault Outcome → Prop
  | returned {n : Nat} {c : State} {val : Slot} {store : Store}
    (walk : Walk image limits.depth n start c)
      (within : n < steps) (last : next image limits.depth c = .ok (.returned val, store)) :
      Ends image limits res steps start (.ok ⟨exitCode res val, store.output.reverse⟩)
  | stopped {n : Nat} {c : State} {halt : Halt} (walk : Walk image limits.depth n start c)
      (within : n < steps) (last : next image limits.depth c = .error halt) :
      Ends image limits res steps start (stop c halt)
  | limit {c : State} (walk : Walk image limits.depth steps start c) :
      Ends image limits res steps start (stop c (.fault (.stepLimit limits.steps)))

def Fault.OfLimit : Fault → Prop
  | stepLimit _ | callDepth _ _ => True
  | _ => False

/-- A limit ends the run in a state whose slots cannot all be released. -/
def Stranded (image : Image) (depth steps : Nat) (start : State) : Prop :=
  ∃ n c, n ≤ steps ∧ Walk image depth n start c ∧ ¬ c.Clean ∧
    (n = steps ∨ ∃ sym, next image depth c = .error (.fault (.callDepth depth sym)))

section
variable {image : Image} {limits low high : Limits} {res : IrType} {start : State} {store : Store}
  {callers : List Caller} {frame : Frame} {steps : Nat}

theorem run_running (stepped : next image limits.depth start = .ok (.running frame callers, store))
    (steps : Nat) :
    run image limits res (steps + 1) start = run image limits res steps ⟨frame, callers, store⟩ :=
      by
  unfold next at stepped
  rw [run, stepped]

theorem run_returned (stepped : next image limits.depth start = .ok (.returned val, store))
    (steps : Nat) :
    run image limits res (steps + 1) start = .ok ⟨exitCode res val, store.output.reverse⟩ := by
  unfold next at stepped
  rw [run, stepped]
  rfl

theorem run_stopped (stepped : next image limits.depth start = .error halt) (steps : Nat) :
    run image limits res (steps + 1) start = stop start halt := by
  unfold next at stepped
  rw [run, stepped]

theorem Ends.step (stepped : next image limits.depth start = .ok (.running frame callers, store))
    (ends : Ends image limits res steps ⟨frame, callers, store⟩ outcome) :
    Ends image limits res (steps + 1) start outcome := by
  cases ends with
  | returned walk within last => exact .returned (.step stepped walk) (Nat.succ_lt_succ within) last
  | stopped walk within last => exact .stopped (.step stepped walk) (Nat.succ_lt_succ within) last
  | limit walk => exact .limit (.step stepped walk)

theorem run_ends (steps : Nat) (start : State) :
    Ends image limits res steps start (run image limits res steps start) := by
  induction steps generalizing start with
  | zero => exact .limit (.here start)
  | succ steps ih =>
    cases stepped : next image limits.depth start with
    | error halt =>
      rw [run_stopped stepped]
      exact .stopped (.here start) (Nat.succ_pos _) stepped
    | ok reached =>
      obtain ⟨control, store⟩ := reached
      cases control with
      | returned val =>
        rw [run_returned stepped]
        exact .returned (.here start) (Nat.succ_pos _) stepped
      | running frame callers =>
        rw [run_running stepped]
        exact (ih _).step stepped

/-- Once slots cannot be released, however the run goes on, this is the fault in the end, if any is
reported. -/
theorem run_dirty (sound : start.Sound) (dirty : ¬ start.Clean) (steps : Nat) :
    ∃ cause : Fault, (cause.OfRelease ∨ cause.isPanic) ∧
      run image limits res steps start = .error cause := by
  have stops {start : State} (sound : start.Sound) (dirty : ¬ start.Clean) (halt : Halt) :
      ∃ cause : Fault, (cause.OfRelease ∨ cause.isPanic) ∧ stop start halt = .error cause := by
    cases panic : halt.isPanic with
    | false => exact (stop_dirty sound dirty panic).imp fun _ => And.imp_left .inl
    | true =>
      cases halt with
      | exit => contradiction
      | fault cause => exact ⟨cause, .inr panic, by rw [stop, panic]; rfl⟩
  induction steps generalizing start with
  | zero => exact stops sound dirty _
  | succ steps ih =>
    cases stepped : next image limits.depth start with
    | error halt =>
      rw [run_stopped stepped]
      exact stops sound dirty halt
    | ok reached =>
      obtain ⟨control, store⟩ := reached
      cases control with
      | returned val => exact absurd (clean_of_returned stepped) dirty
      | running frame callers =>
        have grows := (next_visits stepped).1
        have effect := next_effect stepped
        rw [run_running stepped]
        exact ih (sound_step sound grows effect) fun clean => dirty (clean_of_step sound grows effect clean)

/-- What a run gives under lower limits, and what under higher ones. -/
def Shorter (image : Image) (depth steps : Nat) (start : State) (less more : Except Fault Outcome) :
    Prop :=
  more = less ∨ (∃ cause : Fault, cause.OfLimit ∧ less = .error cause) ∨
    Stranded image depth steps start ∧ ∃ first second : Fault, first.OfRelease ∧ (second.OfRelease ∨ second.isPanic) ∧
      less = .error first ∧ more = .error second

theorem shorter_of_limit (sound : start.Sound) (cause : Fault) (limit : cause.OfLimit)
    (reached : steps = 0 ∨
      ∃ sym, next image low.depth start = .error (.fault (.callDepth low.depth sym))) (more : Nat) :
    Shorter image low.depth steps start (stop start (.fault cause))
      (run image high res more start) := by
  by_cases clean : start.Clean
  · exact .inr (.inl ⟨cause, limit, stop_clean sound clean cause⟩)
  · have reported : (Halt.fault cause).isPanic = false := by
      cases cause <;> first | rfl | contradiction
    obtain ⟨first, released, stops⟩ := stop_dirty sound clean reported
    obtain ⟨second, released', ends⟩ : ∃ cause : Fault, (cause.OfRelease ∨ cause.isPanic) ∧
      run image high res more start = .error cause := run_dirty sound clean more
    have stranded : Stranded image low.depth steps start :=
      ⟨0, start, Nat.zero_le _, .here start, clean, reached.imp_left Eq.symm⟩
    exact .inr (.inr ⟨stranded, first, second, released, released', stops, ends⟩)

theorem Shorter.step (stepped : next image depth start = .ok (.running frame callers, store))
    (shorter : Shorter image depth steps ⟨frame, callers, store⟩ less more) :
    Shorter image depth (steps + 1) start less more := by
  refine shorter.imp_right (Or.imp_right (And.imp_left ?_))
  rintro ⟨n, c, within, walk, dirty, reached⟩
  exact ⟨n + 1, c, Nat.succ_le_succ within, .step stepped walk, dirty, reached.imp_left (congrArg (· + 1))⟩

/-- Both runs take the same steps until the lower limits stop one of them. -/
theorem run_shorter (deeper : low.depth ≤ high.depth) (sound : start.Sound)
    (fewer : steps ≤ steps') :
    Shorter image low.depth steps start (run image low res steps start)
      (run image high res steps' start) := by
  induction steps generalizing start steps' with
  | zero => exact shorter_of_limit sound (.stepLimit low.steps) trivial (.inl rfl) steps'
  | succ steps ih =>
    obtain ⟨steps', rfl⟩ := Nat.exists_eq_add_one_of_ne_zero (Nat.ne_zero_of_lt fewer)
    rcases next_shortens deeper image start with same | ⟨sym, shallow⟩
    · cases stepped : next image low.depth start with
      | error halt =>
        rw [stepped] at same
        rw [run_stopped stepped, run_stopped same]
        exact .inl rfl
      | ok reached =>
        obtain ⟨control, store⟩ := reached
        rw [stepped] at same
        cases control with
        | returned val =>
          rw [run_returned stepped, run_returned same]
          exact .inl rfl
        | running frame callers =>
          rw [run_running stepped, run_running same]
          have sound' := sound_step sound ((next_visits stepped).1) (next_effect stepped)
          exact (ih sound' (Nat.le_of_succ_le_succ fewer)).step stepped
    · rw [run_stopped shallow]
      exact shorter_of_limit sound (.callDepth low.depth sym) trivial (.inr ⟨sym, shallow⟩) _

end

/-! Programs. -/

section
variable (mod : Ir.Module) (others : List Ir.Module) (entry : String)

/-- The program in memory, with the entry and its arguments. -/
def prepare : Except Fault (Image × Memory × Linked × Ir.Function × List Slot) := do
  let (image, memory) ← load (mod :: others)
  match image.modules.head?.bind (image.definition? · entry) with
  | none => throw (.noEntry entry)
  | some (home, fn) => do
    let args ← entryArguments home.module fn.type.params
    return (image, memory, home, fn, args)

def boot (depth : Nat) : Except Fault (Image × Ir.Function × State) := do
  let (image, memory, home, fn, args) ← prepare mod others entry
  if depth = 0 then throw (.callDepth depth fn.symbol)
  match Frame.enter? home fn args with
  | some frame => return (image, fn, { frame, store := { memory } })
  | none => throw (.noBlock fn.symbol 0)

theorem execute_eq (limits : Limits) : execute mod others entry limits = (do
    let (image, fn, start) ← boot mod others entry limits.depth
    run image limits fn.type.result limits.steps start) := by
  unfold execute boot prepare
  cases load (mod :: others) with
  | error cause => rfl
  | ok made =>
    simp only [bind, Except.bind]
    generalize made.1.modules.head?.bind (made.1.definition? · entry) = tgt
    cases tgt with
    | none => rfl
    | some tgt =>
      dsimp only
      cases entryArguments tgt.1.module tgt.2.type.params with
      | error cause => rfl
      | ok args =>
        by_cases shallow : limits.depth = 0
        · simp only [pure, Except.pure, shallow, if_true]
          rfl
        · simp only [pure, Except.pure, shallow, if_false]
          cases Frame.enter? tgt.1 tgt.2 args <;> rfl

theorem boot_shorter (deeper : depth ≤ depth') :
    boot mod others entry depth' = boot mod others entry depth ∨
      ∃ sym, boot mod others entry depth = .error (.callDepth depth sym) := by
  unfold boot
  cases prepare mod others entry with
  | error cause => exact .inl rfl
  | ok made =>
    by_cases shallow : depth = 0
    · subst shallow
      exact .inr ⟨_, rfl⟩
    · have deep : depth' ≠ 0 := by omega
      refine .inl ?_
      simp only [shallow, deep, if_false]

theorem boot_sound {image : Image} (boots : boot mod others entry depth = .ok (image, fn, start)) :
    start.Sound := by
  obtain ⟨⟨image, memory, home, fn, args⟩, -, boots⟩ := bind_ok.mp boots
  by_cases shallow : depth = 0
  · simp only [shallow, if_true] at boots
    cases boots
  · simp only [shallow, if_false] at boots
    split at boots
    · next frame entered =>
      cases boots
      obtain ⟨block, -, rfl⟩ := Option.map_eq_some_iff.mp entered
      exact fun _ mem => nomatch mem
    · cases boots

/-- Limits only cut runs short, except that a release that fails hides them, unless nothing is
reported. -/
theorem limits_cut_short {low high : Limits} (fewer : low.steps ≤ high.steps)
    (shallower : low.depth ≤ high.depth) :
    (execute mod others entry high = execute mod others entry low ∨
      (∃ cause : Fault, cause.OfLimit ∧ execute mod others entry low = .error cause) ∨
      ∃ image fn start, boot mod others entry low.depth = .ok (image, fn, start) ∧
        Stranded image low.depth low.steps start ∧ ∃ first second : Fault, first.OfRelease ∧
          (second.OfRelease ∨ second.isPanic) ∧
          execute mod others entry low = .error first ∧
            execute mod others entry high = .error second) ∧
    (∀ cause, boot mod others entry low.depth = .error cause →
      execute mod others entry low = .error cause) ∧
    (∀ image fn start, boot mod others entry low.depth = .ok (image, fn, start) →
      Ends image low fn.type.result low.steps start (execute mod others entry low)) ∧
    ∀ unit ∈ mod :: others, unit.Acyclic → ∀ name struct, unit.structs.get? name = some struct →
      unit.shape (.struct name) = .struct name (struct.fields.map unit.shape) struct.packed := by
  refine ⟨?_, fun cause fails => ?_, fun image fn start boots => ?_, fun unit _ acyclic name struct found => ?_⟩
  · simp only [execute_eq]
    rcases boot_shorter mod others entry shallower with same | ⟨sym, shallow⟩
    · rw [same]
      cases boots : boot mod others entry low.depth with
      | error cause => exact .inl rfl
      | ok started =>
        obtain ⟨image, fn, start⟩ := started
        have shorter : Shorter image low.depth low.steps start (run image low fn.type.result low.steps start)
          (run image high fn.type.result high.steps start) :=
            run_shorter shallower (boot_sound mod others entry boots) fewer
        exact shorter.imp_right (Or.imp_right fun stranded => ⟨image, fn, start, rfl, stranded⟩)
    · rw [shallow]
      exact .inr (.inl ⟨.callDepth low.depth sym, trivial, rfl⟩)
  · rw [execute_eq, fails]
    rfl
  · rw [execute_eq, boots]
    exact run_ends low.steps start
  · obtain ⟨rank, nested⟩ := acyclic.exists_nested
    exact nested.shape_struct found

end

/-- Two slots are freed by the function itself, the last one first. -/
def frees : Ir.Module :=
  { name := "frees", functions := Table.empty.insert "main" {
      symbol := "main", type := ⟨[], .int 32, false, false⟩, blocks := [{
        label := "entry", instructions := [.alloca 0 (.int 32), .alloca 1 (.int 32),
          .call none ⟨.function "free", .pointer⟩ ⟨[.pointer], .void, false, false⟩ [⟨.register 1, .pointer⟩],
          .call none ⟨.function "free", .pointer⟩ ⟨[.pointer], .void, false, false⟩ [⟨.register 0, .pointer⟩]],
        terminator := some (.ret (some ⟨.int 0, .int 32⟩)) }] } }

def failedFree? : Except Fault Outcome → Option UInt64
  | .error (.invalidFree addr) => some addr
  | _ => none

theorem eq_of_failedFree? (fails : failedFree? res = some addr) :
    res = .error (.invalidFree addr) := by
  unfold failedFree? at fails
  split at fails
  · cases fails
    rfl
  · cases fails

theorem frees_differ : execute frees [] "main" ⟨3, 4⟩ = .error (.invalidFree 0x200000000) ∧
    execute frees [] "main" ⟨10, 4⟩ = .error (.invalidFree 0x100000000) :=
  ⟨eq_of_failedFree? (by decide +kernel), eq_of_failedFree? (by decide +kernel)⟩

theorem frees_stranded :
    3 ≤ 10 ∧ ∃ image fn start, boot frees [] "main" 4 = .ok (image, fn, start) ∧
    Stranded image 4 3 start := by
  have low : execute frees [] "main" ⟨3, 4⟩ = .error (.invalidFree 0x200000000) :=
    eq_of_failedFree? (by decide +kernel)
  have high : execute frees [] "main" ⟨10, 4⟩ = .error (.invalidFree 0x100000000) :=
    eq_of_failedFree? (by decide +kernel)
  have short := @limits_cut_short frees [] "main" ⟨3, 4⟩ ⟨10, 4⟩ (by decide) (by decide)
  obtain ⟨same | ⟨cause, limit, fails⟩ | ⟨image, fn, start, boots, stranded, -⟩, -⟩ := short
  · exact absurd (Fault.invalidFree.inj (Except.error.inj same)) (by decide)
  · cases fails
    exact limit.elim
  · exact ⟨by decide, image, fn, start, boots, stranded⟩

end TernLang.Machine
