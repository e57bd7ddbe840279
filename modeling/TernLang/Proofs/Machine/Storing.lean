import TernLang.Proofs.Ir.Placement
import TernLang.Proofs.Machine.Access

/-! Storing and loading. What is stored where there is room for it is read back, as a whole and part
by part, and no bytes change but those of its scalars. -/
namespace TernLang.Machine

open Ir (Shape Layout gaps)
open Success

variable {memory memory' : Memory} {addr word : UInt64} {num first size : Nat} {shape : Shape}
  {layout : Layout} {slot : Slot} {items : List Slot} {parts : List (Nat × Shape)}

/-- Values of a shape that are made of integers and pointers, as many as it has. -/
inductive Words : Shape → Slot → Prop where
  | int {bits : Nat} {word : UInt64} : Word.truncate word bits = word →
    Words (.int bits) (.int word)
  | pointer (addr : UInt64) : Words .pointer (.pointer addr)
  | parts {shape : Shape} {parts : List (Nat × Shape)} {items : List Slot} :
    shape.parts = .ok parts →
    Few shape → List.Forall₂ (fun part item => Words part.2 item) parts items →
      Words shape (.aggregate items)

/-! Writes change only what they touch. -/

theorem Stands.touched {touched : Nat → Prop} (stands : Stands addr num first)
    (small : ∀ i, touched i → first + i < 2 ^ 32)
    (written : Memory.Writes addr touched memory memory') {region region' : Region}
    (here : memory.regions.get? num = some region) (there : memory'.regions.get? num = some region')
    (differs : region'.byte k ≠ region.byte k) :
    ∃ i, touched i ∧ first + i = k := by
  induction written generalizing region with
  | none =>
    cases here.symm.trans there
    exact absurd rfl differs
  | @step off count _ _ middle _ filled inside writes _ ih =>
    have last := small _ (inside (count - 1) (by omega))
    have alters := (stands.add (by omega)).alters_write filled (by omega) writes
    obtain ⟨between, found, -⟩ := alters.toKeeps.exists_region here
    by_cases same : between.byte k = region.byte k
    · exact ih found there (same ▸ differs)
    · have := alters.bytes _ _ here found k same
      exact ⟨off + (k - first - off), inside _ (by omega), by omega⟩

/-- So many bytes from the address on are in a live region. -/
structure Room (memory : Memory) (addr : UInt64) (num first size : Nat) : Prop where
  stands : Stands addr num first
  small : first + size ≤ 2 ^ 32
  live : ∃ region, memory.regions.get? num = some region ∧ first + size ≤ region.size

namespace Room

variable (room : Room memory addr num first size)
include room

theorem mono (inside : less ≤ size) : Room memory addr num first less := by
  obtain ⟨region, live, fits⟩ := room.live
  exact ⟨room.stands, Nat.le_trans (Nat.add_le_add_left inside _) room.small, region, live, by omega⟩

theorem part (inside : off + less ≤ size) :
    Room memory (addr + off.toUInt64) num (first + off) less := by
  obtain ⟨region, live, fits⟩ := room.live
  have small := room.small
  exact ⟨room.stands.add (by omega), by omega, region, live, by omega⟩

theorem keep (keeps : memory.Keeps memory') : Room memory' addr num first size := by
  obtain ⟨region, live, fits⟩ := room.live
  obtain ⟨region', found, same⟩ := keeps.exists_region live
  exact ⟨room.stands, room.small, region', found, same ▸ fits⟩

theorem agrees (written : Memory.Writes addr (fun i => last ≤ i ∧ i < size) memory memory') :
    memory.Agrees num first (first + last) memory' := by
  obtain ⟨region, live, fits⟩ := room.live
  obtain ⟨region', found, same⟩ := written.keeps.exists_region live
  have small := room.small
  refine ⟨region, region', live, found, same, fun k _ high _ => Decidable.byContradiction fun differs => ?_⟩
  obtain ⟨i, touches, rfl⟩ := room.stands.touched (fun i touches => by omega) written live found differs
  omega

theorem stores_word (filled : 0 < size) (word : UInt64) : ∃ memory',
    memory.write addr (Word.bytes word size) = .ok memory' ∧
      memory'.read addr size = .ok (Word.bytes word size) := by
  obtain ⟨region, live, fits⟩ := room.live
  have small := room.small
  have length := Word.length_bytes word size
  refine ⟨_, Memory.write_ok.mpr ⟨num, region, first, room.stands.region (by omega) live, by omega, rfl⟩, ?_⟩
  refine Memory.read_ok.mpr ⟨num, region.write first (Word.bytes word size), first, ?_, ?_, ?_⟩
  · exact room.stands.region (by omega) (by rw [Sparse.get?_insert, if_pos rfl])
  · rwa [Region.size_write]
  · have back := region.read_write first (Word.bytes word size)
    rwa [length] at back

end Room

def Stores (shape : Shape) (slot : Slot) (addr : UInt64) (memory : Memory) : Prop :=
  ∃ memory', writeShape shape slot addr memory = .ok memory' ∧ readShape memory' shape addr = .ok slot

/-- Later parts are written behind the earlier ones, which are read as before. -/
theorem writeParts_stores (laid : Shape.Laid start parts finish)
    (room : Room memory addr num first finish)
    (each : ∀ part ∈ parts, ∀ layout, part.2.layout = .ok layout → ∀ {memory addr first slot},
      Room memory addr num first layout.size → Words part.2 slot → Stores part.2 slot addr memory)
    (holds : List.Forall₂ (fun part item => Words part.2 item) parts items) :
    ∃ memory', writeParts parts items addr memory = .ok memory' ∧
      readParts memory' parts addr = .ok items := by
  induction laid generalizing items memory with
  | nil =>
    cases holds
    exact ⟨memory, rfl, rfl⟩
  | @cons _ start finish part layout parts sized _ _ laid ih =>
    obtain ⟨here, others⟩ := List.forall_mem_cons.mp each
    obtain - | ⟨has, rest⟩ := holds
    have within := room.part laid.le
    obtain ⟨middle, writes, reads⟩ := here layout sized within has
    have roomy := room.keep (writeShape_writes sized writes).keeps
    obtain ⟨memory', later, read⟩ := ih roomy others rest
    have written : Memory.Writes addr (fun i => start + layout.size ≤ i ∧ i < finish) middle memory' := by
      refine writeParts_writes (fun part mem _ _ _ _ => ?_) (fun part mem k occupied => ?_) later
      · obtain ⟨_, sized, -⟩ := laid.mem part mem
        exact writeShape_writes sized
      · obtain ⟨_, sized, behind, inside⟩ := laid.mem part mem
        have := occupied.lt sized
        omega
    have agrees := (roomy.agrees written).mono (Nat.le_add_right first start) (Nat.le_of_eq (Nat.add_assoc ..))
    have same := readShape_agrees sized within.stands within.small agrees
    refine ⟨memory', bind_ok.mpr ⟨middle, writes, later⟩, ?_⟩
    exact readParts_ok.mpr (.cons (same.trans reads) (readParts_ok.mp read))

theorem writeShape_stores (known : shape.layout = .ok layout)
    (room : Room memory addr num first layout.size) (holds : Words shape slot) :
    Stores shape slot addr memory := by
  induction known using layout_induct generalizing slot addr first memory with
  | scalar scalar =>
    cases holds with
    | @int bits word cut =>
      cases scalar.sized
      obtain ⟨memory', writes, reads⟩ := room.stores_word scalar.positive word
      refine ⟨memory', writes, bind_ok.mpr ⟨_, rfl, bind_ok.mpr ⟨_, reads, ?_⟩⟩⟩
      exact congrArg (fun word => Except.ok (Slot.int word))
        ((congrArg (Word.truncate · bits) (word_of_bytes cut)).trans cut)
    | pointer word =>
      cases scalar.sized
      obtain ⟨memory', writes, reads⟩ := room.stores_word scalar.positive word
      have whole := word_of_bytes (show Word.truncate word 64 = word from rfl)
      rw [show intSize 64 = 8 by decide] at whole
      exact ⟨memory', writes, bind_ok.mpr ⟨_, reads, congrArg (Except.ok ∘ Slot.pointer) whole⟩⟩
    | parts known => exact absurd known (scalar.whole _)
  | aggregate _ known laid within _ each =>
    cases holds with
    | parts same few all =>
      cases known.symm.trans same
      obtain ⟨memory', writes, reads⟩ := writeParts_stores laid (room.mono within) each all
      refine ⟨memory', (writeShape_parts known few ..).trans writes, ?_⟩
      rw [readShape_parts known few, reads]
      rfl
    | _ => cases known

/-- What is stored where there is room for it is read back, as a whole and part by part; only bytes
of its integers and pointers change. -/
theorem stored_reads_back {mod : Ir.Module} {ty : IrType} {region : Region}
    (known : mod.layout ty = .ok layout) (holds : Words (mod.shape ty) slot)
    (live : memory.region addr = .ok (num, region, first)) (small : region.size < 2 ^ 32)
    (fits : first + layout.size ≤ region.size) :
    ∃ memory' region', writeShape (mod.shape ty) slot addr memory = .ok memory' ∧
      readShape memory' (mod.shape ty) addr = .ok slot ∧
      (∀ parts items, (mod.shape ty).parts = .ok parts → slot = .aggregate items →
        List.Forall₂ (fun part item => readShape memory' part.2 (addr + part.1.toUInt64) =
          .ok item) parts items) ∧
      memory'.count = memory.count ∧
        (∀ other, other ≠ num → memory'.regions.get? other = memory.regions.get? other) ∧
      memory'.regions.get? num = some region' ∧ region'.size = region.size ∧
      ∀ k, region'.byte k ≠ region.byte k → ∃ i, Occupied (mod.shape ty) i ∧ first + i = k := by
  obtain ⟨splits, there⟩ := Memory.region_ok.mp live
  obtain ⟨low, -, val⟩ := split_ok.mp splits
  have stands : Stands addr num first := ⟨low, val, by omega⟩
  obtain ⟨memory', writes, reads⟩ := writeShape_stores known ⟨stands, by omega, region, there, fits⟩ holds
  have alters := writeShape_alters known stands (by omega) writes
  obtain ⟨region', found, same⟩ := alters.toKeeps.exists_region there
  refine ⟨memory', region', writes, reads, ?_, alters.count, alters.others, found, same, fun k differs => ?_⟩
  · rintro parts items cut rfl
    rw [readShape_parts cut (few_of_reads reads), bind_ok] at reads
    obtain ⟨_, read, rest⟩ := reads
    cases rest
    exact readParts_ok.mp read
  · refine stands.touched (fun i occupied => ?_) (writeShape_writes known writes) there found differs
    have := occupied.lt known
    omega

/-- Two structs with gaps, behind a byte. -/
def loosePair : Slot :=
  .aggregate [.int 1, .aggregate [.aggregate [.int 2, .int 3, .int 4], .aggregate [.int 5, .int 6, .int 0x1FFFF]]]

theorem loosePair_reads_back : Words (gaps.shape (.struct "Dense")) loosePair ∧ ∃ memory',
    writeShape (gaps.shape (.struct "Dense")) loosePair (regionAddress 0 + 3) ⟨1,
      Sparse.empty.insert 0 ⟨52, .empty⟩⟩ = .ok memory' ∧
      readShape memory' (gaps.shape (.struct "Dense")) (regionAddress 0 + 3) = .ok loosePair := by
  have loose (a b c : UInt64) (cut : Word.truncate a 8 = a) (cut' : Word.truncate c 17 = c) :
      Words (gaps.shape (.struct "Loose")) (.aggregate [.int a, .int b, .int c]) :=
    .parts rfl trivial (.cons (.int cut) (.cons (.int rfl) (.cons (.int cut') .nil)))
  have holds : Words (gaps.shape (.struct "Dense")) loosePair :=
    .parts rfl trivial (.cons (.int rfl) (.cons (.parts rfl (show 2 ≤ Shape.capacity by decide)
      (.cons (loose _ _ _ rfl rfl) (.cons (loose _ _ _ rfl rfl) .nil))) .nil))
  have known : gaps.layout (.struct "Dense") = .ok ⟨49, 1⟩ := rfl
  have live : Memory.region ⟨1, Sparse.empty.insert 0 ⟨52, .empty⟩⟩ (regionAddress 0 + 3) =
      .ok (0, ⟨52, .empty⟩, 3) := rfl
  obtain ⟨memory', _, writes, reads, -⟩ := stored_reads_back known holds live (by decide) (by decide)
  exact ⟨holds, memory', writes, reads⟩

end TernLang.Machine
