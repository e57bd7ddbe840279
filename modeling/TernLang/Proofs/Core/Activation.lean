import TernLang.Proofs.Core.Simulation
import TernLang.Proofs.Core.Slots
import TernLang.Proofs.Machine.Steps

/-! A function of the core while it runs. Its slots are regions of their own, made in order when
it was entered; code that was lowered to one block runs there in the same order. -/
namespace TernLang.Core

open Machine List
open Ir (Builder Instruction)

structure Activation where
  home : Linked
  final : Builder
  args : List Slot
  callers : List Caller
  /-- What it found when it was entered. -/
  entered : Store
  graph : final.function.SsaGraph
  ints : IntSlots final.entry
  standing : Standing entered.memory entered.memory.count (callers.map (·.frame))

namespace Activation

variable (act : Activation)

/-- The number of its first region. -/
def base : Nat := act.entered.memory.count

def top : Nat := act.base + act.final.entry.length

/-- Regions of the slots and of all callers are the same. -/
def Kept (memory memory' : Memory) : Prop :=
  ∀ num < act.top, memory'.regions.get? num = memory.regions.get? num

/-- So many of its slots are there, in order. -/
structure Allocated (act : Activation) (count : Nat) (m : State) : Prop where
  home : m.frame.home = act.home
  function : m.frame.function = act.final.function
  args : m.frame.args = act.args
  callers : m.callers = act.callers
  slots : m.frame.slots = (range count).map fun i => regionAddress (act.base + i)
  pointers : ∀ i < count, ∀ reg ty, act.final.entry[i]? = some (.alloca reg ty) →
    m.frame.registers.get? reg = some (.pointer (regionAddress (act.base + i)))
  live : ∀ i < count, ∀ reg bits, act.final.entry[i]? = some (.alloca reg (.int bits)) →
    ∃ region, m.store.memory.regions.get? (act.base + i) = some region ∧ region.size = intSize bits
  below : ∀ num < act.base, m.store.memory.regions.get? num = act.entered.memory.regions.get? num
  enough : act.base + count ≤ m.store.memory.count
  small : m.store.memory.count ≤ regionLimit
  store : m.store = { act.entered with memory := m.store.memory }

/-- The body is running: all slots are there. -/
abbrev Running (m : State) : Prop := act.Allocated act.final.entry.length m

variable {act : Activation} {m m' : State} {b b' : Builder}

def numbers (act : Activation) (count : Nat) : List Nat := (range count).map (act.base + ·)

theorem nodup_numbers (act : Activation) (count : Nat) : (act.numbers count).Nodup :=
  nodup_range.map fun a b same => by simpa using same

variable {count : Nat} {instr : Instruction} {i reg : Nat}

section
variable (allocated : act.Allocated count m)
include allocated

theorem Allocated.slots_eq : m.frame.slots = (act.numbers count).map regionAddress := by
  rw [allocated.slots, numbers, map_map]
  rfl

section
variable (le : count ≤ act.final.entry.length)
include le

theorem Allocated.owns :
    ∀ num ∈ act.numbers count, act.base ≤ num ∧ num < m.store.memory.count ∧
      (m.store.memory.regions.get? num).isSome := by
  intro num mem
  obtain ⟨i, inside, rfl⟩ := mem_map.mp mem
  rw [mem_range] at inside
  have bound := Nat.lt_of_lt_of_le inside le
  obtain ⟨reg, scalar, slot⟩ := act.ints _ (getElem_mem bound)
  obtain ⟨region, there, -⟩ := allocated.live i inside reg scalar.bits
    (by rw [getElem?_eq_getElem bound, slot])
  have enough := allocated.enough
  exact ⟨by omega, by omega, by rw [there]; rfl⟩

theorem Allocated.standing : Standing m.store.memory m.store.memory.count m.frames := by
  have others : Standing m.store.memory act.base (act.callers.map (·.frame)) :=
    act.standing.mono (Nat.le_refl _) fun num small there => by rwa [allocated.below num small]
  rw [State.frames, allocated.callers]
  exact others.cons allocated.slots_eq (act.nodup_numbers count) (allocated.owns le)
    (Nat.le_trans (Nat.le_add_right ..) allocated.enough)

theorem Allocated.calm : Calm m := unwind_standing (allocated.standing le) allocated.small

end

end

theorem Running.standing (running : act.Running m) :
    Standing m.store.memory m.store.memory.count m.frames :=
  Allocated.standing running (Nat.le_refl _)

theorem Running.calm (running : act.Running m) : Calm m := Allocated.calm running (Nat.le_refl _)

theorem Running.next (running : act.Running m) (home : m'.frame.home = m.frame.home)
    (fn : m'.frame.function = m.frame.function) (args : m'.frame.args = m.frame.args)
    (callers : m'.callers = m.callers) (slots : m'.frame.allocations = m.frame.allocations)
    (registers : ∀ reg ∈ act.final.function.slots,
      m'.frame.registers.get? reg = m.frame.registers.get? reg)
    (store : m'.store = { m.store with memory := m'.store.memory })
    (count : m.store.memory.count ≤ m'.store.memory.count) (small : m'.store.memory.count ≤ regionLimit)
    (below : ∀ num < act.base, m'.store.memory.regions.get? num = m.store.memory.regions.get? num)
    (live : ∀ num < act.top, (m'.store.memory.regions.get? num).map (·.size) =
      (m.store.memory.regions.get? num).map (·.size)) : act.Running m' where
  home := home.trans running.home
  function := fn.trans running.function
  args := args.trans running.args
  callers := callers.trans running.callers
  slots := by rw [← running.slots, Frame.slots, Frame.slots, slots]
  pointers i inside reg ty found := by
    rw [← running.pointers i inside reg ty found]
    refine registers reg ?_
    have mem := mem_of_getElem? found
    unfold Builder.entry at mem
    unfold Ir.Function.slots
    cases there : act.final.function.block? 0 with
    | none =>
      rw [there] at mem
      contradiction
    | some block =>
      rw [there] at mem
      exact mem_filterMap.mpr ⟨_, mem, rfl⟩
  live i inside reg bits found := by
    obtain ⟨region, there, size⟩ := running.live i inside reg bits found
    have same := live (act.base + i) (by unfold top; omega)
    rw [there] at same
    obtain ⟨region', there', size'⟩ := Option.map_eq_some_iff.mp same
    exact ⟨region', there', size'.trans size⟩
  below num small := (below num small).trans (running.below num small)
  enough := Nat.le_trans running.enough count
  small := small
  store := by
    rw [store, running.store]

/-- The machine is at the end of the code that the current block has so far. -/
def Here (act : Activation) (b : Builder) (m : State) : Prop :=
  act.Running m ∧ ∃ block full, b.function.block? b.current = some block ∧
    act.final.function.block? b.current = some full ∧
    m.frame.block = { full with instructions := full.instructions.drop block.instructions.length }

def Begins (act : Activation) (tgt : Nat) (m : State) : Prop :=
  act.Running m ∧ act.final.function.block? tgt = some m.frame.block

theorem Begins.here (begins : act.Begins tgt m) (idle : b.Idle tgt) :
    act.Here (b.positioned tgt) m := by
  obtain ⟨label, found⟩ := idle
  exact ⟨begins.1, _, m.frame.block, found, begins.2, rfl⟩

theorem Here.code (here : act.Here b m) {next : Nat}
    (grows : (b.appended next [instr]).Grows act.final) :
    ∃ rest, m.frame.block.instructions = instr :: rest ∧
      (∃ full, act.final.function.block? b.current = some full ∧ instr ∈ full.instructions) ∧
      ∀ m', act.Running m' → m'.frame.block = { m.frame.block with instructions := rest } →
        act.Here (b.appended next [instr]) m' := by
  obtain ⟨-, block, full, found, there, point⟩ := here
  have longer : (b.appended next [instr]).function.block? b.current =
      some { block with instructions := block.instructions ++ [instr] } := by
    simp [Builder.block?_appended, found]
  obtain ⟨last, there', -, ⟨rest, code⟩, -⟩ := grows.blocks _ _ longer
  obtain rfl : full = last := Option.some.inj (there.symm.trans there')
  have left : full.instructions.drop block.instructions.length = instr :: rest := by
    rw [← code, append_assoc, drop_left]
    rfl
  refine ⟨rest, by rw [point]; exact left, ⟨full, there, by simp [← code]⟩, fun m' running same =>
    ⟨running, _, full, longer, there, ?_⟩⟩
  rw [same, point, ← code]
  simp

theorem Here.ends (here : act.Here b m) (grows : (b.terminated term).Grows act.final) :
    m.frame.block.instructions = [] ∧ m.frame.block.terminator = some term := by
  obtain ⟨-, block, full, found, there, point⟩ := here
  have ended : (b.terminated term).function.block? b.current =
      some { block with terminator := some term } := by
    simp [Builder.block?_terminated, found]
  obtain ⟨last, there', -, -, kept⟩ := grows.blocks _ _ ended
  obtain rfl : full = last := Option.some.inj (there.symm.trans there')
  rw [point, kept rfl]
  simp

theorem Here.withSlot (here : act.Here b m) (inside : b.current ≠ 0) (ty : IrType) :
    act.Here (b.withSlot ty) m := by
  obtain ⟨running, block, full, found, there, point⟩ := here
  refine ⟨running, block, full, ?_, there, point⟩
  change (b.withSlot ty).function.block? b.current = _
  rw [Builder.block?_withSlot, found, Option.map_some, if_neg (Ne.symm inside)]

structure Agrees (n : Nat) (frame frame' : Frame) : Prop where
  home : frame'.home = frame.home
  args : frame'.args = frame.args
  registers : ∀ reg < n, frame'.registers.get? reg = frame.registers.get? reg

theorem Agrees.refl (n : Nat) (frame : Frame) : Agrees n frame frame := ⟨rfl, rfl, fun _ _ => rfl⟩

theorem Agrees.behind (n : Nat) (frame : Frame) (rest : List Instruction) :
    Agrees n frame (frame.behind rest) :=
  ⟨rfl, rfl, fun _ _ => rfl⟩

theorem Agrees.trans {a b c : Frame} (first : Agrees n a b) (second : Agrees n' b c) (le : n ≤ n') :
    Agrees n a c :=
  ⟨second.home.trans first.home, second.args.trans first.args, fun reg small =>
    (second.registers reg (Nat.lt_of_lt_of_le small le)).trans (first.registers reg small)⟩

/-- The operand has a value of its type as long as registers below a number stay. -/
structure Holds (image : Image) (n : Nat) (frame : Frame) (val : Ir.Value)
    (datum : Datum) : Prop where
  type : val.type = .int datum.scalar.bits
  eval : ∀ frame', Agrees n frame frame' →
    ∀ store, (eval image frame' val).run store = .ok (datum.slot, store)

variable {image : Image} {depth n n' : Nat} {val : Ir.Value} {datum : Datum} {frame : Frame}

theorem Holds.mono (holds : Holds image n frame val datum) (agrees : Agrees n frame frame')
    (le : n ≤ n') :
    Holds image n' frame' val datum :=
  ⟨holds.type, fun last more => holds.eval last (agrees.trans more le)⟩

theorem holds_register (found : frame.registers.get? reg = some datum.slot) (small : reg < n) :
    Holds image n frame (.register reg (.int datum.scalar.bits)) datum where
  type := rfl
  eval frame' agrees store := by
    simp only [eval, Ir.Value.register, agrees.registers reg small, found]
    rfl

theorem holds_int (width : bits = datum.scalar.bits) (same : Word.truncate word bits = datum.word) :
    Holds image n frame (.int bits word) datum where
  type := congrArg IrType.int width
  eval frame' agrees store := by
    rw [Ir.Value.int, same]
    rfl

theorem holds_zero (scalar : Scalar) (frame : Frame) :
    Holds image n frame (.zero (.int scalar.bits)) (.of scalar 0) where
  type := rfl
  eval frame' agrees store := by
    have zero : (Datum.of scalar 0).word = 0 := by
      rw [Datum.word_of, Word.residue, Int.zero_emod]
      rfl
    rw [Datum.slot, zero]
    rfl

/-- The machine has moved on in the current block; registers below a number and all slots are
the same. -/
structure Moves (act : Activation) (n : Nat) (b : Builder) (m m' : State) : Prop where
  here : act.Here b m'
  agrees : Agrees n m.frame m'.frame
  kept : act.Kept m.store.memory m'.store.memory

theorem Moves.trans (first : act.Moves n b m m') (second : act.Moves n' b' m' m'') (le : n ≤ n') :
    act.Moves n b' m m'' :=
  ⟨second.here, first.agrees.trans second.agrees le, fun num small =>
    (second.kept num small).trans (first.kept num small)⟩

/-- A register that the code behind the slots defines is not the address of a slot. -/
theorem not_mem_slots (found : act.final.function.block? i = some block) (inside : i ≠ 0)
    (mem : instr ∈ block.instructions) (defines : instr.result? = some reg) :
    reg ∉ act.final.function.slots := by
  have distinct := act.graph.registers
  unfold Ir.Function.registers at distinct
  unfold Ir.Function.slots
  unfold Ir.Function.block? at *
  generalize act.final.function.blocks = blocks at *
  cases blocks with
  | nil => contradiction
  | cons first rest =>
    obtain ⟨j, rfl⟩ := Nat.exists_eq_succ_of_ne_zero inside
    rw [flatMap_cons, nodup_append] at distinct
    intro slot
    exact distinct.2.2 reg slot reg (mem_flatMap.mpr ⟨block, mem_of_getElem? found,
      mem_filterMap.mpr ⟨instr, mem, defines⟩⟩) rfl

theorem Here.assigns (depth : Nat) (here : act.Here b m) (inside : b.current ≠ 0)
    (grows : (b.appended (b.nextRegister + 1) [instr]).Grows act.final)
    (plain : ∀ res callee ty args, instr ≠ .call res callee ty args)
    (defines : instr.result? = some b.nextRegister)
    (performs : ∀ rest, (perform image (m.frame.behind rest) instr).run m.store =
      .ok ((m.frame.behind rest).assign b.nextRegister datum.slot, m.store)) :
    ∃ m', Reach image depth 1 m m' ∧
      act.Moves b.nextRegister (b.appended (b.nextRegister + 1) [instr]) m m' ∧
      Holds image (b.nextRegister + 1) m'.frame
        (.register b.nextRegister (.int datum.scalar.bits)) datum := by
  obtain ⟨rest, code, ⟨full, there, mem⟩, after⟩ := here.code grows
  have fresh := act.not_mem_slots there inside mem defines
  refine ⟨⟨(m.frame.behind rest).assign b.nextRegister datum.slot, m.callers, m.store⟩,
    .one here.1.calm ?_ (Nat.le_succ _), ⟨after _ ?_ rfl, ⟨rfl, rfl, fun reg small => ?_⟩, fun _ _ => rfl⟩,
    holds_register ?_ (Nat.lt_succ_self _)⟩
  · rw [next_perform code plain, performs rest]
    rfl
  · refine here.1.next rfl rfl rfl rfl rfl (fun reg slot => ?_) rfl (Nat.le_refl _) here.1.small
      (fun _ _ => rfl) fun _ _ => rfl
    refine (Sparse.get?_insert ..).trans (if_neg ?_)
    rintro rfl
    exact fresh slot
  · exact (Sparse.get?_insert ..).trans (if_neg (Nat.ne_of_lt small))
  · exact (Sparse.get?_insert ..).trans (if_pos rfl)

def SlotHolds (act : Activation) (memory : Memory) (reg : Nat) (datum : Datum) : Prop :=
  ∃ i, act.final.entry[i]? = some (.alloca reg (.int datum.scalar.bits)) ∧
    HoldsInt memory (act.base + i) datum.scalar.bits datum.word

theorem lt_top (found : act.final.entry[i]? = some instr) : act.base + i < act.top :=
  Nat.add_lt_add_left (List.getElem?_eq_some_iff.mp found).1 _

theorem SlotHolds.kept (holds : act.SlotHolds memory reg datum) (kept : act.Kept memory memory') :
    act.SlotHolds memory' reg datum := by
  obtain ⟨i, found, region, there, rest⟩ := holds
  exact ⟨i, found, region, (kept _ (lt_top found)).trans there, rest⟩

theorem Running.eval_pointer (running : act.Running m) {ty : IrType}
    (found : act.final.entry[i]? = some (.alloca reg ty)) (image : Image) (frame : Frame)
    (same : frame.registers = m.frame.registers) (store : Store) :
    (evalWord image frame (.register reg .pointer)).run store =
      .ok (regionAddress (act.base + i), store) := by
  have ptr := running.pointers i (List.getElem?_eq_some_iff.mp found).1 reg ty found
  rw [← same] at ptr
  simp only [evalWord, eval, Ir.Value.register, ptr]
  rfl

theorem SlotHolds.reads (running : act.Running m) (holds : act.SlotHolds m.store.memory reg datum) :
    ∃ i, act.final.entry[i]? = some (.alloca reg (.int datum.scalar.bits)) ∧
      readShape m.store.memory (.int datum.scalar.bits) (regionAddress (act.base + i)) =
        .ok datum.slot := by
  obtain ⟨i, there, int⟩ := holds
  have small : act.base + i < regionLimit :=
    Nat.lt_of_lt_of_le (lt_top there) (Nat.le_trans running.enough running.small)
  exact ⟨i, there, readShape_int small int datum.truncate_word⟩

theorem Here.stores (here : act.Here b m)
    (grows : (b.appended b.nextRegister [.store val (.register reg .pointer)]).Grows act.final)
    (slot : act.final.entry[i]? = some (.alloca reg (.int datum.scalar.bits)))
    (holds : Holds image n m.frame val datum) :
    ∃ m', Reach image depth 1 m m' ∧
      act.Here (b.appended b.nextRegister [.store val (.register reg .pointer)]) m' ∧
      act.SlotHolds m'.store.memory reg datum ∧
      ∀ other d, other ≠ reg → act.SlotHolds m.store.memory other d →
        act.SlotHolds m'.store.memory other d := by
  obtain ⟨rest, code, -, after⟩ := here.code grows
  have running := here.1
  have below := lt_top slot
  have small : act.base + i < regionLimit :=
    Nat.lt_of_lt_of_le below (Nat.le_trans running.enough running.small)
  obtain ⟨region, there, size⟩ := running.live i (List.getElem?_eq_some_iff.mp slot).1 reg _ slot
  obtain ⟨region', writes, size', bytes⟩ := writeShape_int small there size datum.word
  let memory' : Memory := { m.store.memory with regions := m.store.memory.regions.insert (act.base + i) region' }
  have regions : ∀ num, memory'.regions.get? num =
      if num = act.base + i then some region' else m.store.memory.regions.get? num := fun _ => Sparse.get?_insert ..
  have stored : HoldsInt memory' (act.base + i) datum.scalar.bits datum.word :=
    ⟨region', (regions _).trans (if_pos rfl), size', bytes⟩
  refine ⟨⟨m.frame.behind rest, m.callers, { m.store with memory := memory' }⟩,
    .one running.calm ?_ (Nat.le_succ _), after _ ?_ rfl, ⟨i, slot, stored⟩, ?_⟩
  · have valued := holds.eval (m.frame.behind rest) (.behind ..) m.store
    have pointed := running.eval_pointer slot image (m.frame.behind rest) rfl m.store
    rw [next_perform code (by simp), perform_store pointed valued (by rw [holds.type]; exact writes)]
    rfl
  · refine running.next rfl rfl rfl rfl rfl (fun _ _ => rfl) rfl (Nat.le_refl _) running.small (fun num less => ?_)
      fun num less => ?_
    · exact (regions num).trans (if_neg (by omega))
    · rw [regions]
      split
      · next same => rw [same, there, Option.map_some, Option.map_some, size, size']
      · rfl
  · rintro other d ne ⟨j, found, region, old, rest⟩
    refine ⟨j, found, region, (regions _).trans ((if_neg fun same => ?_).trans old), rest⟩
    obtain rfl : j = i := by omega
    rw [found, Option.some.injEq, Instruction.alloca.injEq] at slot
    exact ne slot.1

end Activation

end TernLang.Core
