import TernLang.Machine.Storage
import TernLang.Proofs.Ir.Layout

/-! Values of a shape. Reading, writing and computing with such values fails only for reasons
that no type excludes. -/
namespace TernLang

open List

theorem Word.truncate_zero (bits : Nat) : truncate 0 bits = 0 := by
  unfold truncate
  split
  · rfl
  · simp

namespace Machine

open Ir (Shape Layout)
open Success

/-- Faults that depend on what a program computes, not on how it is typed. -/
def Fault.isDynamic : Fault → Bool
  | nullDereference | functionAsData | freed _ | badRead _ | badWrite _ | invalidFree _
  | divisionByZero | tooLarge _ | stepLimit _ | callDepth .. => true
  | _ => false

/-- The value is of the shape. Integers are cut to their width. -/
inductive Holds : Shape → Slot → Prop where
  | void : Holds .void .void
  | int {bits : Nat} {word : UInt64} : Word.truncate word bits = word →
    Holds (.int bits) (.int word)
  | half (val : Binary64) : Holds .half (.float val)
  | float (val : Binary64) : Holds .float (.float val)
  | double (val : Binary64) : Holds .double (.float val)
  | pointer (addr : UInt64) : Holds .pointer (.pointer addr)
  | slice (data length : UInt64) : Holds .slice (.aggregate [.pointer data, .int length])
  | array {elem : Shape} {count : Nat} {items : List Slot} : items.length = count →
    count ≤ Shape.capacity →
    (∀ item ∈ items, Holds elem item) → Holds (.array elem count) (.aggregate items)
  | struct {name : String} {fields : List Shape} {packed : Bool} {items : List Slot} :
    Forall₂ Holds fields items → Holds (.struct name fields packed) (.aggregate items)

/-- The result is as stated, or there is none for a reason that no type excludes. -/
def Safe {α : Type} (post : α → Prop) : Except Fault α → Prop
  | .ok val => post val
  | .error cause => cause.isDynamic

section
variable {α β : Type} {post : α → Prop} {post' : β → Prop} {x : Except Fault α}

theorem Safe.bind {f : α → Except Fault β} (first : Safe post x)
    (next : ∀ val, post val → Safe post' (f val)) : Safe post' (x >>= f) := by
  cases x with
  | ok val => exact next val first
  | error cause => exact first

theorem Safe.mono {weaker : α → Prop} (safe : Safe post x)
    (imp : ∀ val, post val → weaker val) : Safe weaker x := by
  cases x with
  | ok val => exact imp val safe
  | error cause => exact safe

end

/-! Memory. -/

abbrev Total {α : Type} (x : Except Fault α) : Prop := Safe (fun _ => True) x

theorem split_total (addr : UInt64) : Total (split addr) := by
  unfold split
  split
  · rfl
  · split
    · rfl
    · trivial

namespace Memory
variable (memory : Memory) (addr : UInt64)

theorem allocate_total (size : Nat) : Total (memory.allocate size) := by
  unfold allocate
  split
  · rfl
  · trivial

theorem region_total : Total (memory.region addr) := by
  refine (split_total addr).bind fun (num, off) _ => ?_
  dsimp only
  split
  · trivial
  · rfl

theorem read_total (count : Nat) : Total (memory.read addr count) := by
  refine (memory.region_total addr).bind fun (_, region, off) _ => ?_
  dsimp only
  split
  · trivial
  · rfl

theorem write_total (bytes : List UInt8) : Total (memory.write addr bytes) := by
  refine (memory.region_total addr).bind fun (num, region, off) _ => ?_
  dsimp only
  split
  · trivial
  · rfl

theorem release_total : Total (memory.release addr) := by
  unfold release
  by_cases null : addr = 0
  · rw [if_pos null]
    trivial
  · rw [if_neg null]
    refine (split_total addr).bind fun (num, off) _ => ?_
    dsimp only
    split
    · trivial
    · rfl

theorem releaseAll_total (addresses : List UInt64) : Total (memory.releaseAll addresses) := by
  induction addresses generalizing memory with
  | nil => trivial
  | cons addr rest ih => exact (memory.release_total addr).bind fun memory _ => ih memory

end Memory

/-! Values in memory. A value is a scalar, which is read and written at once, or it has parts that
lie one behind the other and are read and written in turn. -/

variable {shape : Shape} {fields : List Shape} {idx : Nat} {items : List Slot}
  {parts : List (Nat × Shape)}

abbrev readParts (memory : Memory) (parts : List (Nat × Shape)) (addr : UInt64) :
    Except Fault (List Slot) :=
  readFields memory (parts.map (·.2)) (parts.map (·.1)) addr

abbrev writeParts (parts : List (Nat × Shape)) (items : List Slot) (addr : UInt64)
    (memory : Memory) :
    Except Fault Memory :=
  writeFields (parts.map (·.2)) (parts.map (·.1)) items addr memory

theorem add_elements (addr : UInt64) (first stride : Nat) :
    addr + (first * stride).toUInt64 + stride.toUInt64 = addr + ((first + 1) * stride).toUInt64 :=
      by
  rw [UInt64.add_assoc, Nat.succ_mul]
  exact congrArg (addr + ·) (UInt64.ofNat_add ..).symm

theorem collectEach_eq (memory : Memory) (elem : Shape) (stride first count : Nat) (addr : UInt64) :
    collectEach (readShape memory elem) stride count (addr + (first * stride).toUInt64) =
      readParts memory ((range' first count).map fun i => (i * stride, elem)) addr := by
  induction count generalizing first with
  | zero => rfl
  | succ count ih =>
    rw [collectEach, add_elements, ih]
    rfl

theorem storeEach_eq (elem : Shape) (stride first count : Nat) (items : List Slot) (addr : UInt64)
    (memory : Memory) :
    storeEach (writeShape elem) stride count items (addr + (first * stride).toUInt64) memory =
      writeParts ((range' first count).map fun i => (i * stride, elem)) items addr memory := by
  induction count generalizing first items memory with
  | zero => cases items <;> rfl
  | succ count ih =>
    cases items with
    | nil => rfl
    | cons item items =>
      rw [storeEach, add_elements]
      exact congrArg (writeShape elem item _ memory >>= ·) (funext fun memory => ih (first + 1) items memory)

theorem struct_parts {name : String} {packed : Bool}
    (known : (Shape.struct name fields packed).parts = .ok parts) :
    fieldOffsets fields packed = .ok (parts.map (·.1)) ∧ fields = parts.map (·.2) := by
  simp only [Shape.parts, bind_ok, pure_ok] at known
  obtain ⟨layouts, found, rfl⟩ := known
  have length := (Ir.Layout.length_place packed 0 layouts).trans (Shape.length_layouts found)
  rw [fieldOffsets, found, Ir.Layout.offsets, map_fst_zip (Nat.le_of_eq length),
    map_snd_zip (Nat.le_of_eq length.symm)]
  exact ⟨rfl, rfl⟩

theorem array_parts {elem : Shape} {count : Nat}
    (known : (Shape.array elem count).parts = .ok parts) :
    ∃ stride, sizeOfShape elem = .ok stride ∧
      parts = (range' 0 count).map fun i => (i * stride, elem) := by
  simp only [Shape.parts, bind_ok, pure_ok] at known
  obtain ⟨layout, found, rfl⟩ := known
  rw [sizeOfShape, found, range_eq_range']
  exact ⟨_, rfl, rfl⟩

/-- The parts of a shape are listed before they are read or written, which takes that there are few
enough. -/
def Few : Shape → Prop
  | .array _ count => count ≤ Shape.capacity
  | _ => True

theorem Shape.Listed.few (listed : shape.Listed) : Few shape := by
  cases listed with
  | array few => exact few
  | _ => trivial

theorem Holds.few {slot : Slot} (holds : Holds shape slot) : Few shape := by
  cases holds with
  | array _ few => exact few
  | _ => trivial

theorem readShape_parts (known : shape.parts = .ok parts) (few : Few shape) (memory : Memory) (addr : UInt64) :
    readShape memory shape addr = do return .aggregate (← readParts memory parts addr) := by
  cases shape with
  | struct name fields packed =>
    obtain ⟨offsets, same⟩ := struct_parts known
    rw [readShape, offsets, readParts, ← same]
    rfl
  | slice =>
    cases known
    have start : addr + Nat.toUInt64 0 = addr := UInt64.add_zero addr
    have next : addr + Nat.toUInt64 8 = addr + 8 := rfl
    have sized : sizeOfShape (.int 64) = .ok 8 := rfl
    simp only [readParts, map_cons, map_nil, readFields, readShape, start, next, sized, bind, Except.bind]
    cases memory.read addr 8 with
    | error cause => rfl
    | ok bytes => cases memory.read (addr + 8) 8 <;> rfl
  | array elem count =>
    obtain ⟨stride, sized, rfl⟩ := array_parts known
    rw [readShape, if_neg (Nat.not_lt.mpr few), sized, ← collectEach_eq, Nat.zero_mul,
      show addr + Nat.toUInt64 0 = addr from UInt64.add_zero _]
    rfl
  | _ => cases known

theorem readShape_many (many : ¬ Few shape) (memory : Memory) (addr : UInt64) :
    readShape memory shape addr = .error (.layout .capacity) := by
  cases shape with
  | array elem count =>
    rw [readShape, if_pos (Nat.lt_of_not_le many)]
    rfl
  | _ => exact absurd trivial many

theorem few_of_reads {memory : Memory} {slot : Slot}
    (reads : readShape memory shape addr = .ok slot) : Few shape := by
  by_contra many
  rw [readShape_many many] at reads
  contradiction

theorem few_of_writes {memory memory' : Memory}
    (writes : writeShape shape (.aggregate items) addr memory = .ok memory') :
    Few shape := by
  cases shape with
  | array elem count =>
    by_contra many
    rw [writeShape, if_pos (Nat.lt_of_not_le many)] at writes
    contradiction
  | _ => trivial

theorem writeShape_parts (known : shape.parts = .ok parts) (few : Few shape) (items : List Slot)
    (addr : UInt64) (memory : Memory) :
    writeShape shape (.aggregate items) addr memory = writeParts parts items addr memory := by
  have start : addr + Nat.toUInt64 0 = addr := UInt64.add_zero addr
  cases shape with
  | struct name fields packed =>
    obtain ⟨offsets, same⟩ := struct_parts known
    rw [writeShape, offsets, writeParts, ← same]
    rfl
  | slice =>
    cases known
    match items with
    | [] => rfl
    | [data] => 
      simp only [writeParts, map_cons, writeFields, writeShape, start, bind_assoc]
    | data :: length :: rest =>
      simp only [writeParts, map_cons, map_nil, writeFields, writeShape, start, bind_assoc, bind_pure]
      rfl
  | array elem count =>
    obtain ⟨stride, sized, rfl⟩ := array_parts known
    rw [writeShape, if_neg (Nat.not_lt.mpr few), sized, ← storeEach_eq, Nat.zero_mul, start]
    rfl
  | _ => cases known

theorem forall₂_const {α β : Type} {property : β → Prop} {as : List α} {bs : List β} :
    Forall₂ (fun _ => property) as bs ↔ as.length = bs.length ∧ ∀ b ∈ bs, property b := by
  induction as generalizing bs with
  | nil => cases bs <;> simp
  | cons a as ih => cases bs <;> simp [ih, and_left_comm]

theorem writeShape_parts_ok {slot : Slot} {addr : UInt64} {memory memory' : Memory}
    (known : shape.parts = .ok parts) (writes : writeShape shape slot addr memory = .ok memory') :
    ∃ items, slot = .aggregate items ∧ writeParts parts items addr memory = .ok memory' := by
  cases slot with
  | aggregate items => exact ⟨items, rfl, writeShape_parts known (few_of_writes writes) items addr memory ▸ writes⟩
  | _ =>
    cases shape with
    | slice | array | struct => cases writes
    | _ => cases known

theorem holds_parts (known : shape.parts = .ok parts) (few : Few shape) {slot : Slot} :
    Holds shape slot ↔ ∃ items, slot = .aggregate items ∧
      Forall₂ Holds (parts.map (·.2)) items := by
  cases shape with
  | struct name fields packed =>
    rw [← (struct_parts known).2]
    constructor
    · rintro ⟨⟩
      exact ⟨_, rfl, ‹_›⟩
    · rintro ⟨items, rfl, all⟩
      exact .struct all
  | slice =>
    cases known
    constructor
    · rintro ⟨⟩
      exact ⟨_, rfl, .cons (.pointer _) (.cons (.int rfl) .nil)⟩
    · rintro ⟨_, rfl, _ | ⟨⟨⟩, _ | ⟨⟨⟩, ⟨⟩⟩⟩⟩
      exact .slice ..
  | array elem count =>
    obtain ⟨stride, -, rfl⟩ := array_parts known
    simp only [map_map, forall₂_map_left_iff, Function.comp_def, forall₂_const, length_range']
    constructor
    · rintro ⟨⟩
      exact ⟨_, rfl, Eq.symm ‹_›, ‹_›⟩
    · rintro ⟨items, rfl, length, all⟩
      exact .array length.symm few all
  | _ => cases known

/-- A value that is read and written as one word of so many bytes. -/
structure Scalar (shape : Shape) (size : Nat) : Prop where
  sized : shape.layout = .ok (.scalar size)
  positive : 0 < size
  whole : ∀ parts, shape.parts ≠ .ok parts
  reads : ∃ decode : List UInt8 → Slot, (∀ bytes, Holds shape (decode bytes)) ∧
    ∀ memory addr, readShape memory shape addr = do return decode (← memory.read addr size)
  writes : ∀ slot, ∃ word? : Except Fault UInt64, (Holds shape slot → ∃ word, word? = .ok word) ∧
    ∀ addr memory,
      writeShape shape slot addr memory = do memory.write addr (Word.bytes (← word?) size)

/-- Scalars, and aggregates of parts for which the statement holds. -/
@[elab_as_elim] theorem layout_induct {motive : ∀ shape layout, shape.layout = .ok layout → Prop}
    (scalar : ∀ {shape size} (scalar : Scalar shape size), motive shape (.scalar size) scalar.sized)
    (aggregate : ∀ {shape layout parts finish} (known : shape.layout = .ok layout), shape.parts =
      .ok parts → Shape.Laid 0 parts finish → finish ≤ layout.size → (finish = 0 → layout.size =
      0) → (∀ part ∈ parts, ∀ layout known, motive part.2 layout known) → motive shape layout known)
    {layout : Layout} (known : shape.layout = .ok layout) : motive shape layout known := by
  have int (bits : Nat) : Scalar (.int bits) (Ir.powerAbove ((bits + 7) / 8)) := {
    sized := rfl
    positive := Ir.one_le_powerAbove _
    whole := nofun
    reads := ⟨fun bytes => .int (Word.truncate (Word.ofBytes bytes).toUInt64 bits),
      fun _ => .int (Word.truncate_truncate ..), fun _ _ => rfl⟩
    writes slot := ⟨slot.word, by rintro ⟨⟩; exact ⟨_, rfl⟩, fun _ _ => rfl⟩ }
  have ptr : Scalar .pointer 8 := {
    sized := rfl
    positive := by decide
    whole := nofun
    reads := ⟨_, fun _ => .pointer _, fun _ _ => rfl⟩
    writes slot := ⟨slot.word, by rintro ⟨⟩; exact ⟨_, rfl⟩, fun _ _ => rfl⟩ }
  have real {shape : Shape} {size : Nat} {decode : List UInt8 → Slot} (encode : Binary64 → UInt64)
      (sized : shape.layout = .ok (.scalar size)) (positive : 0 < size) (whole : ∀ parts, shape.parts ≠ .ok parts)
      (holds : ∀ slot, Holds shape slot → ∃ val, slot = .float val) (decoded : ∀ bytes, Holds shape (decode bytes))
      (reads : ∀ memory addr, readShape memory shape addr = do return decode (← memory.read addr size))
      (writes : ∀ slot addr memory, writeShape shape slot addr memory = do
        memory.write addr (Word.bytes (encode (← slot.real)) size)) : Scalar shape size := by
    refine ⟨sized, positive, whole, ⟨decode, decoded, reads⟩,
      fun slot => ⟨slot.real.map encode, fun has => ?_, fun addr memory => ?_⟩⟩
    · obtain ⟨val, rfl⟩ := holds slot has
      exact ⟨_, rfl⟩
    · rw [writes]
      cases slot.real <;> rfl
  have solid := Shape.solid_of_layout known
  induction solid generalizing layout with
  | int bits =>
    cases known
    exact scalar (int bits)
  | half =>
    cases known
    exact scalar (real _ rfl (by decide) (by rintro _ ⟨⟩) (by rintro _ ⟨⟩; exact ⟨_, rfl⟩)
      (fun _ => .half _) (fun _ _ => rfl) fun _ _ _ => rfl)
  | float =>
    cases known
    exact scalar (real _ rfl (by decide) (by rintro _ ⟨⟩) (by rintro _ ⟨⟩; exact ⟨_, rfl⟩)
      (fun _ => .float _) (fun _ _ => rfl) fun _ _ _ => rfl)
  | double =>
    cases known
    exact scalar (real _ rfl (by decide) (by rintro _ ⟨⟩) (by rintro _ ⟨⟩; exact ⟨_, rfl⟩)
      (fun _ => .double _) (fun _ _ => rfl) fun _ _ _ => rfl)
  | pointer =>
    cases known
    exact scalar ptr
  | slice =>
    cases known
    have length : Shape.Laid 8 [(8, .int 64)] 16 := .cons (int 64).sized (Nat.le_refl 8) nofun (.nil 16)
    refine aggregate rfl rfl (.cons ptr.sized (Nat.le_refl 0) id length) (Nat.le_refl 16) nofun ?_
    simp only [forall_mem_cons]
    refine ⟨?_, ?_, forall_mem_nil _⟩
    · rintro _ ⟨⟩
      exact scalar ptr
    · rintro _ ⟨⟩
      exact scalar (int 64)
  | @array elem count _ inner ih =>
    simp only [Shape.layout, bind_ok, pure_ok] at known
    obtain ⟨layout, found, rfl⟩ := known
    have laid := Shape.laid_elements found 0 count
    rw [Nat.zero_mul, Nat.zero_add, Nat.mul_comm] at laid
    have parts : (Shape.array elem count).parts = .ok ((range' 0 count).map fun i => (i * layout.size, elem)) := by
      rw [Shape.parts, found, range_eq_range']
      rfl
    refine aggregate _ parts laid (Nat.le_refl _) id fun part mem layout known => ?_
    obtain ⟨_, -, rfl⟩ := mem_map.mp mem
    exact ih known
  | @struct name fields packed inner ih =>
    simp only [Shape.layout, bind_ok, pure_ok] at known
    obtain ⟨layouts, found, rfl⟩ := known
    refine aggregate _ (by rw [Shape.parts, found]; rfl) (Shape.laid_place found packed 0)
      (Layout.place_le_struct packed layouts) (fun zero => ?_) fun part mem layout known =>
        ih part.2 (of_mem_zip mem).2 known
    simp only [Layout.struct, zero, Ir.alignTo_zero]

theorem readFields_safe {memory : Memory}
    (each : ∀ part ∈ parts, ∀ addr, Safe (Holds part.2) (readShape memory part.2 addr))
    (addr : UInt64) :
    Safe (Forall₂ Holds (parts.map (·.2))) (readParts memory parts addr) := by
  induction parts with
  | nil => exact .nil
  | cons part parts ih =>
    obtain ⟨first, rest⟩ := forall_mem_cons.mp each
    exact (first _).bind fun item here => (ih rest).bind fun items later => .cons here later

theorem Shape.Listed.part {part : Nat × Shape} (listed : shape.Listed)
    (known : shape.parts = .ok parts) (mem : part ∈ parts) :
    part.2.Listed := by
  cases listed with
  | slice =>
    cases known
    rcases mem_pair.mp mem with rfl | rfl
    · exact .pointer
    · exact .int 64
  | array few listed =>
    obtain ⟨stride, -, rfl⟩ := array_parts known
    obtain ⟨_, -, rfl⟩ := mem_map.mp mem
    exact listed
  | struct name packed listed => exact listed part.2 ((struct_parts known).2 ▸ mem_map_of_mem mem)
  | _ => cases known

theorem readShape_safe (listed : shape.Listed) (memory : Memory) (addr : UInt64) :
    Safe (Holds shape) (readShape memory shape addr) := by
  obtain ⟨layout, known⟩ := listed.exists_layout
  induction known using layout_induct generalizing addr with
  | scalar scalar =>
    obtain ⟨decode, holds, reads⟩ := scalar.reads
    rw [reads]
    exact (memory.read_total ..).bind fun bytes _ => holds bytes
  | aggregate _ known laid _ _ each =>
    have few := Shape.Listed.few listed
    rw [readShape_parts known few]
    refine (readFields_safe (fun part mem => ?_) addr).bind fun items all =>
      (holds_parts known few).mpr ⟨items, rfl, all⟩
    obtain ⟨layout, laid, -⟩ := laid.mem part mem
    exact each part mem layout laid (Shape.Listed.part listed known mem)

theorem writeFields_total (each : ∀ part ∈ parts, ∀ slot, Holds part.2 slot →
      ∀ addr memory, Total (writeShape part.2 slot addr memory))
    (holds : Forall₂ Holds (parts.map (·.2)) items) (addr : UInt64) (memory : Memory) :
    Total (writeParts parts items addr memory) := by
  induction parts generalizing items memory with
  | nil =>
    cases holds
    trivial
  | cons part parts ih =>
    obtain ⟨first, rest⟩ := forall_mem_cons.mp each
    cases holds with
    | cons here later => exact (first _ here _ memory).bind fun memory _ => ih rest later memory

theorem writeShape_total (listed : shape.Listed) {slot : Slot} (holds : Holds shape slot)
    (addr : UInt64) (memory : Memory) : Total (writeShape shape slot addr memory) := by
  obtain ⟨layout, known⟩ := listed.exists_layout
  clear listed
  induction known using layout_induct generalizing slot addr memory with
  | scalar scalar =>
    obtain ⟨word?, worded, writes⟩ := scalar.writes slot
    obtain ⟨word, rfl⟩ := worded holds
    rw [writes]
    exact memory.write_total ..
  | aggregate _ known laid _ _ each =>
    obtain ⟨items, rfl, all⟩ := (holds_parts known holds.few).mp holds
    rw [writeShape_parts known holds.few]
    refine writeFields_total (fun part mem slot holds addr memory => ?_) all addr memory
    obtain ⟨layout, known, -⟩ := laid.mem part mem
    exact each part mem layout known holds addr memory

theorem zeroOfList_holds
    (each : ∀ field ∈ fields, ∃ slot, zeroOf field = .ok slot ∧ Holds field slot) :
    ∃ items, zeroOfList fields = .ok items ∧ Forall₂ Holds fields items := by
  induction fields with
  | nil => exact ⟨[], rfl, .nil⟩
  | cons field fields ih =>
    obtain ⟨⟨slot, zero, here⟩, rest⟩ := forall_mem_cons.mp each
    obtain ⟨items, zeros, later⟩ := ih rest
    rw [zeroOfList, zero, zeros]
    exact ⟨slot :: items, rfl, .cons here later⟩

theorem zeroOf_holds (listed : shape.Listed) :
    ∃ slot, zeroOf shape = .ok slot ∧ Holds shape slot := by
  induction listed with
  | int bits => exact ⟨_, rfl, .int (Word.truncate_zero bits)⟩
  | half => exact ⟨_, rfl, .half _⟩
  | float => exact ⟨_, rfl, .float _⟩
  | double => exact ⟨_, rfl, .double _⟩
  | pointer => exact ⟨_, rfl, .pointer _⟩
  | slice => exact ⟨_, rfl, .slice ..⟩
  | @array _ count few _ ih =>
    obtain ⟨slot, zero, holds⟩ := ih
    cases count with
    | zero => exact ⟨_, rfl, .array rfl few fun _ mem => nomatch mem⟩
    | succ count =>
      rw [zeroOf, if_neg (Nat.not_lt.mpr few), zero]
      refine ⟨_, rfl, .array (length_replicate ..) few fun item mem => ?_⟩
      rw [eq_of_mem_replicate mem]
      exact holds
  | struct name packed _ ih =>
    obtain ⟨items, zeros, holds⟩ := zeroOfList_holds ih
    rw [zeroOf, zeros]
    exact ⟨_, rfl, .struct holds⟩

/-! Parts of aggregates. -/

theorem getElem?_of_forall₂ {α β : Type} {relation : α → β → Prop} {as : List α} {bs : List β}
    (all : Forall₂ relation as bs) {a : α} (found : as[idx]? = some a) :
    ∃ b, bs[idx]? = some b ∧ relation a b := by
  induction all generalizing idx with
  | nil => contradiction
  | cons here _ ih =>
    cases idx with
    | zero =>
      cases found
      exact ⟨_, rfl, here⟩
    | succ idx => exact ih found

theorem forall₂_set {α β : Type} {relation : α → β → Prop} {as : List α} {bs : List β}
    (all : Forall₂ relation as bs) {a : α} (found : as[idx]? = some a) {b : β}
    (here : relation a b) :
    Forall₂ relation as (bs.set idx b) := by
  induction all generalizing idx with
  | nil => contradiction
  | cons first rest ih =>
    cases idx with
    | zero =>
      cases found
      exact .cons here rest
    | succ idx => exact .cons first (ih found)

theorem Holds.exists_part {mod : Ir.Module} {rank : String → Nat} (ranked : mod.Ranked rank)
    {ty part : IrType} {slot : Slot} (holds : Holds (mod.shape ty) slot)
    (there : mod.partType? ty idx = some part) :
    ∃ items, slot = .aggregate items ∧
      (∃ item, items[idx]? = some item ∧ Holds (mod.shape part) item) ∧
      ∀ item, Holds (mod.shape part) item →
        Holds (mod.shape ty) (.aggregate (items.set idx item)) := by
  cases ty with
  | struct name =>
    obtain ⟨struct, found, field⟩ := Option.bind_eq_some_iff.mp there
    rw [ranked.shape_struct found] at holds ⊢
    cases holds with
    | struct all =>
      have shaped : (struct.fields.map mod.shape)[idx]? = some (mod.shape part) := by
        rw [getElem?_map, field]
        rfl
      obtain ⟨item, known, holds⟩ := getElem?_of_forall₂ all shaped
      exact ⟨_, rfl, ⟨item, known, holds⟩, fun item holds => .struct (forall₂_set all shaped holds)⟩
  | slice =>
    cases holds with
    | slice data length =>
      match idx, there with
      | 0, there =>
        cases there
        refine ⟨_, rfl, ⟨_, rfl, .pointer data⟩, fun item holds => ?_⟩
        cases holds
        exact .slice ..
      | 1, there =>
        cases there
        refine ⟨_, rfl, ⟨_, rfl, .int rfl⟩, fun item holds => ?_⟩
        cases holds
        exact .slice ..
  | array elem count =>
    cases holds with
    | @array _ _ items length few all =>
      simp only [Ir.Module.partType?, Option.ite_none_right_eq_some, Option.some.injEq] at there
      obtain ⟨less, rfl⟩ := there
      have inside : idx < items.length := length ▸ less
      refine ⟨items, rfl, ⟨items[idx], getElem?_eq_getElem inside, all _ (getElem_mem inside)⟩,
        fun item holds => .array ((length_set ..).trans length) few fun other mem => ?_⟩
      rcases mem_or_eq_of_mem_set mem with mem | rfl
      · exact all other mem
      · exact holds
  | _ => contradiction

/-! Operations. -/

section
variable {mod : Ir.Module} {ty src tgt : IrType} {a b slot : Slot} {op : Ir.BinaryInst}

theorem Holds.real (float : ty.isFloat) (holds : Holds (mod.shape ty) slot) :
    ∃ val, slot = .float val := by
  cases ty <;> first | contradiction | (cases holds; exact ⟨_, rfl⟩)

theorem Holds.of_real (float : ty.isFloat) (val : Binary64) :
    Holds (mod.shape ty) (.float val) := by
  cases ty with
  | half => exact .half val
  | float => exact .float val
  | double => exact .double val
  | _ => contradiction

theorem wordBinary_total (takes : op.takes ty) (word : ty.isFloat = false) (a b : UInt64) :
    Total (wordBinary op ty a b) := by
  cases op with
  | fadd | fsub | fmul | fdiv | frem => exact absurd (word.symm.trans takes) (by decide)
  | sdiv | udiv | srem | urem =>
    simp only [wordBinary, divisionOp?]
    split
    · rfl
    · trivial
  | add | sub | mul | and | or | xor => trivial

theorem binary_safe (takes : op.takes ty) (left : Holds (mod.shape ty) a)
    (right : Holds (mod.shape ty) b) : Safe (Holds (mod.shape ty)) (binary op ty a b) := by
  by_cases float : ty.isFloat
  · obtain ⟨x, rfl⟩ := left.real float
    obtain ⟨y, rfl⟩ := right.real float
    have computes : ∃ compute, floatOp? op = some compute := by
      cases op with
      | fadd | fsub | fmul | fdiv | frem => exact ⟨_, rfl⟩
      | _ => cases ty <;> contradiction
    obtain ⟨compute, known⟩ := computes
    simp only [binary, float, if_true, known]
    exact .of_real float _
  · have word : ty.isFloat = false := by simpa using float
    obtain ⟨bits, rfl⟩ : ∃ bits, ty = .int bits := by
      cases ty with
      | int bits => exact ⟨bits, rfl⟩
      | half | float | double => contradiction
      | _ => cases op <;> contradiction
    cases left
    cases right
    rw [binary, if_neg float]
    exact (wordBinary_total takes word _ _).bind fun _ _ => .int (Word.truncate_truncate ..)

theorem compare_total {predicate : Ir.Predicate} (takes : predicate.takes ty)
    (left : Holds (mod.shape ty) a) (right : Holds (mod.shape ty) b) :
    Total (compare predicate ty a b) := by
  by_cases float : predicate.isFloat
  · have real : ty.isFloat := by cases predicate <;> first | contradiction | exact takes
    obtain ⟨x, rfl⟩ := left.real real
    obtain ⟨y, rfl⟩ := right.real real
    rw [compare, if_pos float]
    trivial
  · rw [compare, if_neg float]
    cases ty with
    | int bits | pointer =>
      cases left
      cases right
      trivial
    | _ => cases predicate <;> contradiction

theorem cast_safe {op : Ir.CastOp} (converts : op.converts src tgt)
    (holds : Holds (mod.shape src) slot) :
    Safe (Holds (mod.shape tgt)) (cast op src slot tgt) := by
  cases op with
  | trunc | zext | sext | ptrtoint =>
    cases src <;> cases tgt <;> first | contradiction | (cases holds; exact .int (Word.truncate_truncate ..))
  | inttoptr => cases src <;> cases tgt <;> first | contradiction | (cases holds; exact .pointer _)
  | fptrunc | fpext =>
    simp only [Ir.CastOp.converts, Bool.and_eq_true] at converts
    obtain ⟨val, rfl⟩ := holds.real converts.1.1
    exact .of_real converts.1.2 _
  | fptosi | fptoui =>
    cases tgt with
    | int bits =>
      obtain ⟨val, rfl⟩ := holds.real converts
      exact .int (Word.truncate_truncate ..)
    | _ => contradiction
  | sitofp | uitofp =>
    cases src with
    | int bits =>
      cases holds
      exact .of_real converts _
    | _ => contradiction

end
end Machine
end TernLang
