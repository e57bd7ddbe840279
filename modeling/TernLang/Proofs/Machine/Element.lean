import TernLang.Proofs.Machine.Access
import TernLang.Proofs.Machine.Steps

/-! Accesses through an index. The element an index counts off has a true offset in the region of
its pointer, which is any integer. Addresses count modulo 2^64 and a region has 2^32 of them, so a
true offset that is no offset of the region is an address of another one. -/
namespace TernLang.Machine

open Ir (Layout Value)
open Success

section
variable (image : Image) (frame : Frame)

/-- Load the element that `index` counts off from `pointer`. Its address goes to register `place`.
-/
def loadElement (ty : IrType) (ptr idx : Value) (place res : Nat) : Exec Frame := do
  let frame ← perform image frame (.elementPtr place ty ptr [idx])
  perform image frame (.load res ty ⟨.register place, .pointer⟩)

/-- Store a value as the element that `index` counts off from `pointer`. -/
def storeElement (ptr idx val : Value) (place : Nat) : Exec Frame := do
  let frame ← perform image frame (.elementPtr place val.type ptr [idx])
  perform image frame (.store val ⟨.register place, .pointer⟩)

end

variable {place : Nat} {first : Nat} {memory : Memory}

section
variable {image : Image} {frame : Frame} {store store' : Store} {val : Value}

theorem eval_withMemory (memory : Memory) : (eval image frame val).run { store with memory } =
    ((eval image frame val).run store).map fun (slot, after) => (slot, { after with memory }) := by
  unfold eval
  split
  · split <;> rfl
  · split <;> rfl
  · rfl
  · rfl
  · rfl
  · cases zeroOf (frame.home.module.shape val.type) <;> rfl
  · split <;> rfl
  · unfold functionAddress
    simp only [StateT.run_bind, StateT.run_get, pure_bind]
    split <;> rfl

theorem evalWord_withMemory (known : (evalWord image frame val).run store = .ok (word, store))
    (memory : Memory) :
    (evalWord image frame val).run { store with memory } = .ok (word, { store with memory }) := by
  rw [evalWord, StateT.run_bind] at known ⊢
  rw [eval_withMemory]
  cases ran : (eval image frame val).run store with
  | error halt =>
    rw [ran] at known
    cases known
  | ok res =>
    obtain ⟨slot, after⟩ := res
    rw [ran] at known
    change (attempt slot.word).run after = _ at known
    change (attempt slot.word).run { after with memory } = _
    cases worded : slot.word with
    | error cause =>
      rw [worded] at known
      cases known
    | ok found =>
      rw [worded] at known
      cases known
      rfl

theorem memory_eval (known : (eval image frame val).run store = .ok (slot, store')) :
    store'.memory = store.memory := by
  have same : (eval image frame val).run store = _ := eval_withMemory store.memory
  rw [known] at same
  have kept : store' = { store' with memory := store.memory } := (Prod.mk.inj (Except.ok.inj same)).2
  rw [kept]

theorem eval_assign (other : val.operand ≠ .register place) (slot : Slot) :
    eval image (frame.assign place slot) val = eval image frame val := by
  unfold eval
  split
  · next reg known =>
    rw [known] at other
    simp only [Frame.assign, Sparse.get?_insert, if_neg fun same : reg = place => other (congrArg _ same)]
  all_goals rfl

end

def Faults (action : Exec Frame) (store : Store) : Prop :=
  ∃ cause, action.run store = .error (.fault cause)

/-- A pointer into a live region, and the true offset there of the element an index counts off from
it. -/
structure Indexes (image : Image) (frame : Frame) (store : Store) (ty : IrType) (ptr idx : Value)
    (number : Nat) (region : Region) (layout : Layout) (tgt : Int) : Prop where
  sized : (frame.home.module.shape ty).layout = .ok layout
  aims : ∃ addr word off, (evalWord image frame ptr).run store = .ok (addr, store) ∧
    (evalWord image frame idx).run store = .ok (word, store) ∧
    store.memory.region addr = .ok (number, region, off) ∧
    tgt = off + Word.signed word idx.type.width * layout.size

/-- The address where a true offset of a region is looked for. -/
def IsPlace (num : Nat) (tgt : Int) (addr : UInt64) : Prop :=
  num < regionLimit ∧ (addr.toNat : Int) = ((num + 1) * 2 ^ 32 + tgt) % 2 ^ 64

def regionReached (num : Nat) (tgt : Int) : Nat := ((num + tgt / 2 ^ 32) % 2 ^ 32).toNat

section
variable {num : Nat} {tgt : Int} {addr : UInt64}

theorem toNat_ofInt_mul (idx : Int) (size : Nat) :
    ((Word.ofInt idx * size.toUInt64).toNat : Int) = idx * size % 2 ^ 64 := by
  have reduced : ((Word.ofInt idx).toNat : Int) = idx % 2 ^ 64 := by
    have power : (twoPow 64 : Int) = 18446744073709551616 := rfl
    simp only [Word.ofInt, Nat.toUInt64, UInt64.toNat_ofNat', power]
    omega
  rw [UInt64.toNat_mul]
  simp only [Nat.toUInt64, UInt64.toNat_ofNat']
  push_cast
  rw [reduced]
  exact (Int.mul_emod ..).symm

theorem isPlace_add {off size : Nat} (stands : split base = .ok (num, off)) :
    IsPlace num (off + idx * size) (base + Word.ofInt idx * size.toUInt64) := by
  obtain ⟨small, -, val⟩ := split_ok.mp stands
  refine ⟨small, ?_⟩
  have step := toNat_ofInt_mul idx size
  rw [UInt64.toNat_add]
  push_cast
  omega

theorem IsPlace.stands (place : IsPlace num first addr) (inside : first ≤ 2 ^ 32) :
    Stands addr num first := by
  obtain ⟨small, val⟩ := place
  have limit : regionLimit = 2147483647 := rfl
  exact ⟨small, by omega, inside⟩

/-- Outside the offsets of the region, another region is looked for. -/
theorem IsPlace.reaches (place : IsPlace num tgt addr) (reaches : memory.Reaches addr) :
    ∃ region, memory.regions.get? (regionReached num tgt) = some region ∧
      tgt % 2 ^ 32 < region.size := by
  obtain ⟨found, region, off, live, inside⟩ := reaches
  obtain ⟨splits, there⟩ := Memory.region_ok.mp live
  obtain ⟨small, below, val⟩ := split_ok.mp splits
  obtain ⟨-, places⟩ := place
  have same : regionReached num tgt = found := by
    unfold regionReached
    omega
  exact ⟨region, same ▸ there, by omega⟩

/-- An element whose true offset is not in its pointer's region is not reached, unless its address
wraps into another live region. -/
theorem IsPlace.not_reaches (place : IsPlace num tgt addr)
    (live : memory.regions.get? num = some region) (outside : tgt < 0 ∨ region.size ≤ tgt)
    (alone : (0 ≤ tgt ∧ tgt < 2 ^ 32) ∨ memory.regions.get? (regionReached num tgt) = none) :
    ¬ memory.Reaches addr := by
  intro reaches
  obtain ⟨reached, there, inside⟩ := place.reaches reaches
  rcases alone with window | dead
  · have same : regionReached num tgt = num := by
      have small := place.1
      have limit : regionLimit = 2147483647 := rfl
      unfold regionReached
      omega
    rw [same] at there
    cases live.symm.trans there
    omega
  · rw [dead] at there
    contradiction

end

namespace Indexes
variable {image : Image} {frame after : Frame} {store store' : Store} {ty : IrType}
  {ptr idx val : Value} {num : Nat} {region : Region} {layout : Layout} {tgt : Int}

theorem exists_place (indexes : Indexes image frame store ty ptr idx num region layout tgt) :
    ∃ addr, IsPlace num tgt addr ∧ ∀ place memory,
      (perform image frame (.elementPtr place ty ptr [idx])).run { store with memory } =
        .ok (frame.assign place (.pointer addr), { store with memory }) := by
  obtain ⟨base, word, off, pointed, indexed, live, rfl⟩ := indexes.aims
  refine ⟨_, isPlace_add (Memory.region_ok.mp live).1, fun place memory => ?_⟩
  have known : (attemptLayout (frame.home.module.shape ty).layout).run { store with memory } =
      .ok (layout, { store with memory }) := by
    rw [indexes.sized]
    rfl
  have counted : (elementOffset image frame ty [idx]).run { store with memory } =
      .ok (Word.ofInt (Word.signed word idx.type.width) * layout.size.toUInt64, { store with memory }) := by
    rw [elementOffset, run_bind_of_ok known, evalIndex, bind_assoc,
      run_bind_of_ok (evalWord_withMemory indexed memory)]
    rfl
  rw [perform, run_bind_of_ok (evalWord_withMemory pointed memory), run_bind_of_ok counted]
  rfl

theorem run_loadElement
    (placed : (perform image frame (.elementPtr place ty ptr [idx])).run { store with memory } =
      .ok (frame.assign place (.pointer addr), { store with memory })) (res : Nat) :
    (loadElement image frame ty ptr idx place res).run { store with memory } =
      match readShape memory (frame.home.module.shape ty) addr with
      | .ok slot => .ok ((frame.assign place (.pointer addr)).assign res slot, { store with memory })
      | .error cause => .error (.fault cause) := by
  have pointed : (evalWord image (frame.assign place (.pointer addr)) ⟨.register place, .pointer⟩).run
      { store with memory } = .ok (addr, { store with memory }) := by
    simp only [evalWord, eval, Frame.assign, Sparse.get?_insert, if_true]
    rfl
  rw [loadElement, run_bind_of_ok placed, perform, run_bind_of_ok pointed, run_bind_of_ok (StateT.run_get _)]
  change StateT.run (attempt (readShape memory (frame.home.module.shape ty) addr) >>= _) _ = _
  cases readShape memory (frame.home.module.shape ty) addr <;> rfl

theorem run_storeElement (placed : (perform image frame (.elementPtr place val.type ptr [idx])).run store =
      .ok (frame.assign place (.pointer addr), store)) :
    (storeElement image frame ptr idx val place).run store =
      ((eval image (frame.assign place (.pointer addr)) val).run store).bind fun (slot, after) =>
        match writeShape (frame.home.module.shape val.type) slot addr after.memory with
        | .ok memory => .ok (frame.assign place (.pointer addr), { after with memory })
        | .error cause => .error (.fault cause) := by
  have pointed : (evalWord image (frame.assign place (.pointer addr)) ⟨.register place, .pointer⟩).run store =
      .ok (addr, store) := by
    simp only [evalWord, eval, Frame.assign, Sparse.get?_insert, if_true]
    rfl
  rw [storeElement, run_bind_of_ok placed, perform, run_bind_of_ok pointed]
  cases ran : (eval image (frame.assign place (.pointer addr)) val).run store with
  | error halt => exact run_bind_of_error ran
  | ok res =>
    obtain ⟨slot, after⟩ := res
    rw [run_bind_of_ok ran, run_bind_of_ok (StateT.run_get _)]
    change StateT.run (attempt (writeShape (frame.home.module.shape val.type) slot addr after.memory) >>= _) _ =
      match writeShape (frame.home.module.shape val.type) slot addr after.memory with
      | .ok memory => _
      | .error cause => _
    cases writeShape (frame.home.module.shape val.type) slot addr after.memory <;> rfl

section
variable (indexes : Indexes image frame store ty ptr idx num region layout tgt)
include indexes

theorem load_agrees (aims : tgt = first) (fits : first + layout.size ≤ 2 ^ 32)
    (loads : (loadElement image frame ty ptr idx place res).run store = .ok (after, store')) :
    store' = store ∧ ∀ memory, store.memory.Agrees num first (first + layout.size) memory →
      (loadElement image frame ty ptr idx place res).run { store with memory } =
        .ok (after, { store with memory }) := by
  obtain ⟨addr, placed, runs⟩ := indexes.exists_place
  rw [aims] at placed
  have here := run_loadElement (runs place store.memory) res
  rw [loads] at here
  cases reads : readShape store.memory (frame.home.module.shape ty) addr with
  | error cause =>
    rw [reads] at here
    contradiction
  | ok slot =>
    rw [reads] at here
    obtain ⟨rfl, rfl⟩ := Prod.mk.inj (Except.ok.inj here)
    refine ⟨rfl, fun memory agrees => ?_⟩
    rw [run_loadElement (runs place memory) res,
      readShape_agrees indexes.sized (placed.stands (by omega)) fits agrees, reads]

theorem store_alters (aims : tgt = first) (fits : first + layout.size ≤ 2 ^ 32)
    (typed : val.type = ty)
    (stores : (storeElement image frame ptr idx val place).run store = .ok (after, store')) :
    store.memory.Alters num first (first + layout.size) store'.memory := by
  obtain ⟨addr, placed, runs⟩ := indexes.exists_place
  rw [aims] at placed
  subst typed
  rw [run_storeElement (runs place store.memory)] at stores
  obtain ⟨⟨slot, between⟩, evaluated, stores⟩ := bind_ok.mp stores
  dsimp only at stores
  rw [memory_eval evaluated] at stores
  split at stores
  · next memory writes =>
    cases stores
    exact writeShape_alters indexes.sized (placed.stands (by omega)) fits writes
  · contradiction

theorem load_faults (filled : 0 < layout.size)
    (missed : ∀ addr, IsPlace num tgt addr → ¬ store.memory.Reaches addr)
    (place res : Nat) : Faults (loadElement image frame ty ptr idx place res) store := by
  obtain ⟨addr, placed, runs⟩ := indexes.exists_place
  have here := run_loadElement (runs place store.memory) res
  cases reads : readShape store.memory (frame.home.module.shape ty) addr with
  | ok slot => exact absurd (readShape_reaches indexes.sized filled reads) (missed addr placed)
  | error cause =>
    rw [reads] at here
    exact ⟨cause, here⟩

end

theorem store_faults (indexes : Indexes image frame store val.type ptr idx num region layout tgt)
    (filled : 0 < layout.size) (missed : ∀ addr, IsPlace num tgt addr → ¬ store.memory.Reaches addr)
    (other : val.operand ≠ .register place)
    (evaluated : (eval image frame val).run store = .ok (slot, between))
    (holds : Holds (frame.home.module.shape val.type) slot) :
    Faults (storeElement image frame ptr idx val place) store := by
  obtain ⟨addr, placed, runs⟩ := indexes.exists_place
  have here := run_storeElement (runs place store.memory)
  rw [eval_assign other, evaluated] at here
  cases writes : writeShape (frame.home.module.shape val.type) slot addr between.memory with
  | ok memory =>
    rw [memory_eval evaluated] at writes
    exact absurd (writeShape_reaches indexes.sized filled holds writes) (missed addr placed)
  | error cause =>
    refine ⟨cause, here.trans ?_⟩
    change (match writeShape (frame.home.module.shape val.type) slot addr between.memory with
      | .ok memory => _
      | .error cause => _) = _
    rw [writes]

end Indexes

/-- An element that ends before the last offset of its pointer's region is found there: a load
depends on no other bytes and a store changes no others. An element whose true offset is not in the
region is not found, unless the address wraps into another live region. -/
theorem element_access {image : Image} {frame : Frame} {store : Store} {ty : IrType}
    {ptr idx : Value} {num : Nat} {region : Region} {layout : Layout} {tgt : Int}
    (indexes : Indexes image frame store ty ptr idx num region layout tgt) :
    (∀ first : Nat, tgt = first → first + layout.size ≤ 2 ^ 32 →
      (∀ place res after store',
        (loadElement image frame ty ptr idx place res).run store = .ok (after, store') →
          store' = store ∧ ∀ memory, store.memory.Agrees num first (first + layout.size) memory →
            (loadElement image frame ty ptr idx place res).run { store with memory } =
              .ok (after, { store with memory })) ∧
      ∀ place val after store', val.type = ty →
        (storeElement image frame ptr idx val place).run store = .ok (after, store') →
          store.memory.Alters num first (first + layout.size) store'.memory) ∧
    (0 < layout.size → tgt < 0 ∨ region.size ≤ tgt →
      (0 ≤ tgt ∧ tgt < 2 ^ 32) ∨ store.memory.regions.get? (regionReached num tgt) = none →
        (∀ place res, Faults (loadElement image frame ty ptr idx place res) store) ∧
        ∀ place val slot between, val.type = ty → val.operand ≠ .register place →
          (eval image frame val).run store = .ok (slot, between) →
            Holds (frame.home.module.shape ty) slot →
            Faults (storeElement image frame ptr idx val place) store) := by
  refine ⟨fun first aims fits => ⟨?_, ?_⟩, fun filled outside alone => ?_⟩
  · intro place res after store' loads
    exact indexes.load_agrees aims fits loads
  · intro place val after store' typed stores
    exact indexes.store_alters aims fits typed stores
  · have live : store.memory.regions.get? num = some region := by
      obtain ⟨_, _, _, -, -, live, -⟩ := indexes.aims
      exact (Memory.region_ok.mp live).2
    have missed : ∀ addr, IsPlace num tgt addr → ¬ store.memory.Reaches addr :=
      fun addr placed => placed.not_reaches live outside alone
    refine ⟨indexes.load_faults filled missed, fun place val slot between typed other evaluated holds => ?_⟩
    subst typed
    exact indexes.store_faults filled missed other evaluated holds

/-! Two cells side by side, and a frame whose argument points to the first. -/

def twoCells : Store where
  memory := ⟨2, (Sparse.empty.insert 0 { size := 4 }).insert 1 { size := 4 }⟩

def atFirstCell : Frame where
  home := { module := { name := "cells" } }
  function := { symbol := "fill", type := { params := [.pointer], result := .void } }
  block := { label := "entry" }
  args := [.pointer (regionAddress 0)]

theorem twoCells_indexes (word : UInt64) :
    Indexes ⟨[]⟩ atFirstCell twoCells .i32 ⟨.argument 0, .pointer⟩ ⟨.int word, .i64⟩ 0
      { size := 4 } ⟨4, 4⟩ (Word.signed word 64 * 4) where
  sized := rfl
  aims := ⟨regionAddress 0, word, 0, rfl, rfl, rfl, (Int.zero_add _).symm⟩

/-- The next cell is no part of the first one. -/
theorem store_behind_faults : 4 ≤ Word.signed 1 64 * 4 ∧
    Faults (storeElement ⟨[]⟩ atFirstCell ⟨.argument 0, .pointer⟩ ⟨.int 1, .i64⟩ ⟨.int 9,
      .i32⟩ 0) twoCells :=
  ⟨by decide, ((element_access (twoCells_indexes 1)).2 (by decide) (.inr (by decide)) (.inl (by decide))).2
    0 ⟨.int 9, .i32⟩ (.int 9) twoCells rfl nofun rfl (.int rfl)⟩

/-- A store far behind the first cell is done, and goes to the second one. -/
theorem store_wraps : 4 ≤ Word.signed 0x40000000 64 * 4 ∧
    ((storeElement ⟨[]⟩ atFirstCell ⟨.argument 0, .pointer⟩ ⟨.int 0x40000000, .i64⟩ ⟨.int 9,
      .i32⟩ 0).run
      twoCells).map (fun res => (res.2.memory.regions.get? 1).map (·.byte 0)) = .ok (some 9) :=
  ⟨by decide, by rfl⟩

end TernLang.Machine
