import TernLang.Proofs.Ir.Layout
import TernLang.Proofs.Machine.Regions
import TernLang.Proofs.Machine.Typing

/-! Which bytes an access touches. A value that takes space is read and written from its first byte
on, so that an access which does not reach this byte faults. As long as a value does not go past the
last offset of a region, all its bytes are looked for in that region. -/
namespace TernLang
open Success List

theorem Word.length_bytes (word : UInt64) (count : Nat) : (bytes word count).length = count := by
  simp [bytes]

namespace Machine

open Ir (Shape Layout)

variable {word : UInt64} {layouts : List Layout} {fields : List Shape} {packed : Bool}
  {layout : Layout} {shape : Shape}

namespace Memory
variable {memory memory' memory'' : Memory} {addr : UInt64} {num first last : Nat}

theorem region_ok {region : Region} : memory.region addr = .ok (num, region, off) ↔
    split addr = .ok (num, off) ∧ memory.regions.get? num = some region := by
  simp only [Memory.region, bind_ok, Prod.exists]
  constructor
  · rintro ⟨found, off', splits, there⟩
    split at there
    · next region' live =>
      cases there
      exact ⟨splits, live⟩
    · contradiction
  · rintro ⟨splits, live⟩
    refine ⟨num, off, splits, ?_⟩
    rw [live]
    rfl

variable {bytes : List UInt8} {count : Nat}

theorem read_ok : memory.read addr count = .ok bytes ↔
    ∃ num region off, memory.region addr = .ok (num, region, off) ∧
      off + count ≤ region.size ∧ region.read off count = bytes := by
  simp only [Memory.read, bind_ok, Prod.exists]
  refine exists_congr fun num => exists_congr fun region => exists_congr fun off => and_congr_right fun _ => ?_
  split
  · next inside => simp only [pure_ok, inside, true_and]
  · next outside => simp only [throw_ok, outside, false_and]

theorem write_ok : memory.write addr bytes = .ok memory' ↔
    ∃ num region off, memory.region addr = .ok (num, region, off) ∧
      off + bytes.length ≤ region.size ∧
      { memory with regions := memory.regions.insert num (region.write off bytes) } = memory' := by
  simp only [Memory.write, bind_ok, Prod.exists]
  refine exists_congr fun num => exists_congr fun region => exists_congr fun off => and_congr_right fun _ => ?_
  split
  · next inside => simp only [pure_ok, inside, true_and]
  · next outside => simp only [throw_ok, outside, false_and]

theorem allocate_ok : memory.allocate size = .ok made ↔
    size < 2 ^ 32 ∧
      (regionAddress memory.count,
        ⟨memory.count + 1, memory.regions.insert memory.count { size }⟩) = made := by
  have limit : offsetLimit = 4294967295 := rfl
  rw [allocate]
  split
  · next large =>
    simp only [throw_ok, false_iff]
    omega
  · next small =>
    have fits : size < 2 ^ 32 := by omega
    simp only [pure_ok, fits, true_and]

theorem release_ok : memory.release addr = .ok memory' ↔
    addr = 0 ∧ memory = memory' ∨ ∃ num, split addr = .ok (num, 0) ∧
      (memory.regions.get? num).isSome ∧
        { memory with regions := memory.regions.erase num } = memory' := by
  rw [release]
  by_cases zero : addr = 0
  · subst zero
    have apart : ∀ num, split 0 ≠ .ok (num, 0) := fun num splits => by
      have val : (0 : UInt64).toNat = _ := (split_ok.mp splits).2.2
      rw [show (0 : UInt64).toNat = 0 from rfl] at val
      omega
    simp [pure_ok, apart]
  · simp only [zero, if_false, bind_ok, Prod.exists, false_and, false_or]
    refine exists_congr fun num => ?_
    constructor
    · rintro ⟨off, splits, released⟩
      split at released
      · next alive =>
        obtain ⟨rfl, alive⟩ := alive
        exact ⟨splits, alive, pure_ok.mp released⟩
      · contradiction
    · rintro ⟨splits, alive, rfl⟩
      refine ⟨0, splits, ?_⟩
      rw [if_pos ⟨rfl, alive⟩]
      rfl

def Reaches (memory : Memory) (addr : UInt64) : Prop :=
  ∃ num region off, memory.region addr = .ok (num, region, off) ∧ off < region.size

theorem reaches_of_read (reads : memory.read addr count = .ok bytes) (positive : 0 < count) :
    memory.Reaches addr := by
  obtain ⟨num, region, off, live, inside, -⟩ := read_ok.mp reads
  exact ⟨num, region, off, live, by omega⟩

theorem reaches_of_write (writes : memory.write addr (Word.bytes word count) = .ok memory')
    (positive : 0 < count) : memory.Reaches addr := by
  obtain ⟨num, region, off, live, inside, -⟩ := write_ok.mp writes
  rw [Word.length_bytes] at inside
  exact ⟨num, region, off, live, by omega⟩

structure Keeps (memory memory' : Memory) : Prop where
  count : memory'.count = memory.count
  sizes : ∀ num, (memory'.regions.get? num).map (·.size) = (memory.regions.get? num).map (·.size)

theorem Keeps.refl (memory : Memory) : memory.Keeps memory := ⟨rfl, fun _ => rfl⟩

theorem Keeps.trans (early : memory.Keeps memory') (late : memory'.Keeps memory'') :
    memory.Keeps memory'' :=
  ⟨late.count.trans early.count, fun num => (late.sizes num).trans (early.sizes num)⟩

theorem Keeps.exists_region (keeps : memory.Keeps memory') {region : Region}
    (there : memory.regions.get? num = some region) :
    ∃ region', memory'.regions.get? num = some region' ∧ region'.size = region.size := by
  have sizes := keeps.sizes num
  rw [there] at sizes
  exact Option.map_eq_some_iff.mp sizes

theorem Keeps.reaches (keeps : memory.Keeps memory') (reaches : memory'.Reaches addr) :
    memory.Reaches addr := by
  obtain ⟨num, region', off, live, inside⟩ := reaches
  obtain ⟨splits, there⟩ := region_ok.mp live
  have sizes := keeps.sizes num
  rw [there] at sizes
  obtain ⟨region, found, size⟩ := Option.map_eq_some_iff.mp sizes.symm
  exact ⟨num, region, off, region_ok.mpr ⟨splits, found⟩, size ▸ inside⟩

theorem keeps_write (writes : memory.write addr bytes = .ok memory') : memory.Keeps memory' := by
  obtain ⟨num, region, off, live, -, rfl⟩ := write_ok.mp writes
  refine ⟨rfl, fun other => ?_⟩
  rw [Sparse.get?_insert]
  split
  · next same =>
    subst same
    rw [(region_ok.mp live).2, Option.map_some, Option.map_some, Region.size_write]
  · rfl

/-- Nothing changes but bytes of one region, from `first` on and before `last`. -/
structure Alters (num first last : Nat)
    (memory memory' : Memory) : Prop extends Keeps memory memory' where
  others : ∀ other, other ≠ num → memory'.regions.get? other = memory.regions.get? other
  bytes : ∀ region region', memory.regions.get? num = some region →
    memory'.regions.get? num = some region' →
    ∀ k, region'.byte k ≠ region.byte k → first ≤ k ∧ k < last ∧ k < region.size

theorem Alters.refl (num first last : Nat) (memory : Memory) :
    memory.Alters num first last memory where
  toKeeps := .refl memory
  others := fun _ _ => rfl
  bytes := by
    intro region region' here there k differs
    cases here.symm.trans there
    exact absurd rfl differs

theorem Alters.trans (early : memory.Alters num first last memory')
    (late : memory'.Alters num first last memory'') :
    memory.Alters num first last memory'' where
  toKeeps := early.toKeeps.trans late.toKeeps
  others := fun other ne => (late.others other ne).trans (early.others other ne)
  bytes := by
    intro region region'' here there k differs
    obtain ⟨region', found, size⟩ := early.toKeeps.exists_region here
    by_cases same : region'.byte k = region.byte k
    · rw [← size]
      exact late.bytes region' region'' found there k (same ▸ differs)
    · exact early.bytes region region' here found k same

theorem Alters.mono (alters : memory.Alters num first last memory') (below : first' ≤ first)
    (above : last ≤ last') :
    memory.Alters num first' last' memory' where
  toKeeps := alters.toKeeps
  others := alters.others
  bytes := by
    intro region region' here there k differs
    have := alters.bytes region region' here there k differs
    omega

/-- Writes of some bytes, counted from an address. -/
inductive Writes (addr : UInt64) (touched : Nat → Prop) : Memory → Memory → Prop
  | none (memory : Memory) : Writes addr touched memory memory
  | step {off count : Nat} {word : UInt64} {memory middle memory' : Memory} (filled : 0 < count)
      (inside : ∀ i < count, touched (off + i))
      (first : memory.write (addr + off.toUInt64) (Word.bytes word count) = .ok middle)
      (rest : Writes addr touched middle memory') : Writes addr touched memory memory'

namespace Writes
variable {touched touched' : Nat → Prop}

theorem one (filled : 0 < size) (inside : ∀ i < size, touched i)
    (writes : memory.write addr (Word.bytes word size) = .ok memory') :
    Writes addr touched memory memory' := by
  rw [← show addr + Nat.toUInt64 0 = addr from UInt64.add_zero addr] at writes
  exact .step filled (fun i less => (Nat.zero_add i).symm ▸ inside i less) writes (.none _)

theorem trans (early : Writes addr touched memory memory')
    (late : Writes addr touched memory' memory'') :
    Writes addr touched memory memory'' := by
  induction early with
  | none => exact late
  | step filled inside first _ ih => exact .step filled inside first (ih late)

theorem part (written : Writes (addr + off.toUInt64) touched' memory memory')
    (inside : ∀ k, touched' k → touched (off + k)) : Writes addr touched memory memory' := by
  induction written with
  | none => exact .none _
  | @step further count word _ _ _ filled below first _ ih =>
    have sum : off.toUInt64 + further.toUInt64 = (off + further).toUInt64 := (UInt64.ofNat_add ..).symm
    rw [UInt64.add_assoc, sum] at first
    exact .step filled (fun i less => by rw [Nat.add_assoc]; exact inside _ (below i less)) first ih

theorem keeps (written : Writes addr touched memory memory') : memory.Keeps memory' := by
  induction written with
  | none memory => exact .refl memory
  | step _ _ first _ ih => exact (keeps_write first).trans ih

end Writes

/-- Memories that hold the same bytes of a region from `first` on and before `last`. -/
def Agrees (num first last : Nat) (memory memory' : Memory) : Prop :=
  ∃ region region', memory.regions.get? num = some region ∧ memory'.regions.get? num = some region' ∧
    region'.size = region.size ∧ ∀ k, first ≤ k → k < last → k < region.size → region'.byte k = region.byte k

theorem Agrees.mono (agrees : memory.Agrees num first last memory') (below : first ≤ first')
    (above : last' ≤ last) :
    memory.Agrees num first' last' memory' := by
  obtain ⟨region, region', here, there, size, same⟩ := agrees
  exact ⟨region, region', here, there, size, fun k low high inside => same k (by omega) (by omega) inside⟩

end Memory

/-- An address stands for an offset of a region. The offset may be the one behind the last. -/
structure Stands (addr : UInt64) (num off : Nat) : Prop where
  small : num < regionLimit
  value : addr.toNat = (num + 1) * 2 ^ 32 + off
  inside : off ≤ 2 ^ 32

namespace Stands
variable {memory memory' : Memory} {addr : UInt64} {num off count : Nat}

section
variable (stands : Stands addr num off)
include stands

theorem split (below : off < 2 ^ 32) :
    Machine.split addr = .ok (num, off) := split_ok.mpr ⟨stands.small, below, stands.value⟩

theorem add (fits : off + more ≤ 2 ^ 32) : Stands (addr + more.toUInt64) num (off + more) := by
  have limit : regionLimit = 2147483647 := rfl
  have small := stands.small
  have val := stands.value
  refine ⟨small, ?_, fits⟩
  rw [UInt64.toNat_add, UInt64.toNat_ofNat']
  omega

theorem region (below : off < 2 ^ 32) {region : Region}
    (there : memory.regions.get? num = some region) : memory.region addr = .ok (num, region, off) :=
  Memory.region_ok.mpr ⟨stands.split below, there⟩

theorem alters_write (filled : 0 < count) (fits : off + count ≤ 2 ^ 32)
    (writes : memory.write addr (Word.bytes word count) = .ok memory') :
    memory.Alters num off (off + count) memory' where
  toKeeps := Memory.keeps_write writes
  others := by
    obtain ⟨found, region, start, live, -, rfl⟩ := Memory.write_ok.mp writes
    intro other ne
    cases (stands.split (by omega)).symm.trans (Memory.region_ok.mp live).1
    rw [Sparse.get?_insert, if_neg ne]
  bytes := by
    obtain ⟨found, region, start, live, inside, rfl⟩ := Memory.write_ok.mp writes
    intro old new here there k differs
    cases (stands.split (by omega)).symm.trans (Memory.region_ok.mp live).1
    cases here.symm.trans (Memory.region_ok.mp live).2
    rw [Sparse.get?_insert, if_pos rfl] at there
    cases there
    rw [Region.byte_write] at differs
    split at differs
    · contradiction
    · next low =>
      rw [Word.length_bytes] at inside
      by_cases high : k < off + count
      · omega
      · rw [getElem?_eq_none (by rw [Word.length_bytes]; omega)] at differs
        contradiction

theorem alters_writes {touched : Nat → Prop} (below : ∀ k, touched k → k < size)
    (fits : off + size ≤ 2 ^ 32) (written : Memory.Writes addr touched memory memory') :
    memory.Alters num off (off + size) memory' := by
  induction written with
  | none => exact .refl ..
  | @step further count _ _ _ _ filled inside first _ ih =>
    have last := below _ (inside (count - 1) (by omega))
    have early := (stands.add (by omega)).alters_write filled (by omega) first
    exact (early.mono (by omega) (by omega)).trans ih

theorem read_agrees (filled : 0 < count) (fits : off + count ≤ 2 ^ 32)
    (agrees : memory.Agrees num off (off + count) memory') :
    memory'.read addr count = memory.read addr count := by
  obtain ⟨region, region', here, there, size, same⟩ := agrees
  rw [Memory.read, Memory.read, stands.region (by omega) here, stands.region (by omega) there]
  change (if off + count ≤ region'.size then _ else _) = if off + count ≤ region.size then _ else _
  rw [size]
  split
  · next inside =>
    refine congrArg Except.ok (map_congr_left fun i mem => ?_)
    have := mem_range.mp mem
    exact same (off + i) (by omega) (by omega) (by omega)
  · rfl

end

end Stands

/-- Bytes of the scalars in a value. What is between them belongs to none. -/
inductive Occupied : Shape → Nat → Prop
  | scalar {shape : Shape} {size k : Nat} : Scalar shape size → k < size → Occupied shape k
  | part {shape part : Shape} {parts : List (Nat × Shape)} {start k : Nat} :
    shape.parts = .ok parts →
    (start, part) ∈ parts → Occupied part k → Occupied shape (start + k)

theorem Occupied.lt (occupied : Occupied shape k) (known : shape.layout = .ok layout) :
    k < layout.size := by
  induction known using layout_induct generalizing k with
  | scalar scalar =>
    cases occupied with
    | scalar other below =>
      cases scalar.sized.symm.trans other.sized
      exact below
    | part known => exact absurd known (scalar.whole _)
  | aggregate _ known laid within _ each =>
    cases occupied with
    | scalar scalar => exact absurd known (scalar.whole _)
    | part same mem occupied =>
      cases known.symm.trans same
      obtain ⟨layout, sized, -, inside⟩ := laid.mem _ mem
      have := each _ mem layout sized occupied
      omega

section
variable {memory memory' : Memory} {addr : UInt64} {items : List Slot} {slot : Slot}
  {parts : List (Nat × Shape)} {off finish num first : Nat}

/-! What takes space is read from its first byte on. -/

theorem readParts_ok : readParts memory parts addr = .ok items ↔
    Forall₂ (fun part item => readShape memory part.2 (addr + part.1.toUInt64) =
      .ok item) parts items := by
  induction parts generalizing items with
  | nil => simp [readParts, readFields, pure, Except.pure, eq_comm]
  | cons part parts ih =>
    simp only [readParts, map_cons, readFields, bind_ok, pure_ok, forall₂_cons_left_iff, ih]
    grind

theorem readShape_reaches (known : shape.layout = .ok layout) (positive : 0 < layout.size)
    (reads : readShape memory shape addr = .ok slot) : memory.Reaches addr := by
  induction known using layout_induct generalizing slot with
  | scalar scalar =>
    obtain ⟨decode, -, same⟩ := scalar.reads
    rw [same, bind_ok] at reads
    obtain ⟨bytes, read, -⟩ := reads
    exact Memory.reaches_of_read read positive
  | aggregate _ known laid _ empty each =>
    rw [readShape_parts known (few_of_reads reads), bind_ok] at reads
    obtain ⟨items, read, -⟩ := reads
    obtain ⟨part, layout, mem, sized, space⟩ := laid.exists_first rfl (by omega)
    obtain ⟨item, -, here⟩ := exists_of_forall₂ (readParts_ok.mp read) _ mem
    exact each _ mem layout sized space (UInt64.add_zero addr ▸ here)

/-! A value is written to its bytes, and what takes space from its first byte on. -/

theorem writeParts_writes {touched : Nat → Prop}
    (each : ∀ part ∈ parts, ∀ slot addr memory memory', writeShape part.2 slot addr memory =
      .ok memory' → Memory.Writes addr (Occupied part.2) memory memory')
    (inside : ∀ part ∈ parts, ∀ k, Occupied part.2 k → touched (part.1 + k))
    (writes : writeParts parts items addr memory = .ok memory') :
    Memory.Writes addr touched memory memory' := by
  induction parts generalizing items memory with
  | nil =>
    cases writes
    exact .none _
  | cons part parts ih =>
    rw [forall_mem_cons] at each inside
    cases items with
    | nil =>
      cases writes
      exact .none _
    | cons item items =>
      obtain ⟨middle, early, late⟩ := bind_ok.mp writes
      exact ((each.1 _ _ _ _ early).part inside.1).trans (ih each.2 inside.2 late)

theorem writeShape_writes (known : shape.layout = .ok layout)
    (writes : writeShape shape slot addr memory = .ok memory') :
    Memory.Writes addr (Occupied shape) memory memory' := by
  induction known using layout_induct generalizing slot addr memory memory' with
  | scalar scalar =>
    obtain ⟨word?, -, same⟩ := scalar.writes slot
    rw [same, bind_ok] at writes
    obtain ⟨word, -, written⟩ := writes
    exact .one scalar.positive (fun k => .scalar scalar) written
  | aggregate _ known laid _ _ each =>
    obtain ⟨items, rfl, written⟩ := writeShape_parts_ok known writes
    refine writeParts_writes (fun part mem slot addr memory memory' writes => ?_)
      (fun part mem k => .part known mem) written
    obtain ⟨layout, sized, -⟩ := laid.mem part mem
    exact each part mem layout sized writes

theorem writeParts_reaches (laid : Shape.Laid off parts finish) (front : off = 0)
    (positive : 0 < finish) (each : ∀ part ∈ parts, ∀ layout, part.2.layout = .ok layout → 0 <
      layout.size → ∀ slot memory memory', Holds part.2 slot → writeShape part.2 slot addr memory =
      .ok memory' → memory.Reaches addr) (holds : Forall₂ Holds (parts.map (·.2)) items)
    (writes : writeParts parts items addr memory = .ok memory') :
    memory.Reaches addr := by
  induction laid generalizing items memory with
  | nil => omega
  | @cons _ start _ part layout _ known _ first _ ih =>
    obtain rfl := first front
    obtain ⟨here, others⟩ := forall_mem_cons.mp each
    cases holds with
    | cons has rest =>
      obtain ⟨middle, early, late⟩ := bind_ok.mp writes
      rw [show addr + Nat.toUInt64 0 = addr from UInt64.add_zero addr] at early
      by_cases space : 0 < layout.size
      · exact here layout known space _ _ _ has early
      · exact (writeShape_writes known early).keeps.reaches (ih (by omega) positive others rest late)

theorem writeShape_reaches (known : shape.layout = .ok layout) (positive : 0 < layout.size)
    (holds : Holds shape slot) (writes : writeShape shape slot addr memory = .ok memory') :
    memory.Reaches addr := by
  induction known using layout_induct generalizing slot memory memory' with
  | scalar scalar =>
    obtain ⟨word?, -, same⟩ := scalar.writes slot
    rw [same, bind_ok] at writes
    obtain ⟨word, -, written⟩ := writes
    exact Memory.reaches_of_write written positive
  | aggregate _ known laid _ empty each =>
    obtain ⟨items, rfl, all⟩ := (holds_parts known holds.few).mp holds
    rw [writeShape_parts known holds.few] at writes
    exact writeParts_reaches laid rfl (by omega) (fun part mem layout sized space slot memory memory' holds =>
      each part mem layout sized space holds) all writes

/-! A value that does not go past the last offset of a region is looked for in that region only. -/

theorem readParts_congr (same : ∀ part ∈ parts, readShape memory' part.2 (addr + part.1.toUInt64) =
      readShape memory part.2 (addr + part.1.toUInt64)) :
    readParts memory' parts addr = readParts memory parts addr := by
  induction parts with
  | nil => rfl
  | cons part parts ih =>
    obtain ⟨here, rest⟩ := forall_mem_cons.mp same
    simp only [readParts, map_cons, readFields, here] at ih ⊢
    rw [ih rest]

theorem readShape_agrees (known : shape.layout = .ok layout) (stands : Stands addr num first)
    (fits : first + layout.size ≤ 2 ^ 32)
    (agrees : memory.Agrees num first (first + layout.size) memory') :
    readShape memory' shape addr = readShape memory shape addr := by
  induction known using layout_induct generalizing addr first with
  | scalar scalar =>
    obtain ⟨decode, -, same⟩ := scalar.reads
    rw [same, same, stands.read_agrees scalar.positive fits agrees]
  | aggregate _ known laid _ _ each =>
    by_cases few : Few ‹Shape›
    case neg => rw [readShape_many few, readShape_many few]
    rw [readShape_parts known few, readShape_parts known few, readParts_congr fun part mem => ?_]
    obtain ⟨layout, sized, -, inside⟩ := laid.mem part mem
    exact each part mem layout sized (stands.add (by omega)) (by omega) (agrees.mono (by omega) (by omega))

theorem writeShape_alters (known : shape.layout = .ok layout) (stands : Stands addr num first)
    (fits : first + layout.size ≤ 2 ^ 32)
    (writes : writeShape shape slot addr memory = .ok memory') :
    memory.Alters num first (first + layout.size) memory' :=
  stands.alters_writes (fun _ occupied => occupied.lt known) fits (writeShape_writes known writes)

end

end Machine
end TernLang
