import Mathlib.Data.List.Induction
import TernLang.Proofs.Machine.Access

/-! Memory over whole histories of calls. A ledger has an entry for every region ever made: its
size, its bytes as last written, and whether it is alive. Memory keeps to the ledger, and since
entries are never taken back an address of a released region stays without use. -/
namespace TernLang.Machine.Memory

open List

inductive Call where
  | allocate (size : Nat)
  | release (addr : UInt64)
  | read (addr : UInt64) (count : Nat)
  | write (addr : UInt64) (bytes : List UInt8)
  | text (addr : UInt64)

/-- A call that faults leaves memory as it is. -/
def after (memory : Memory) : Call → Memory
  | .allocate size => ((memory.allocate size).map Prod.snd).toOption.getD memory
  | .release addr => (memory.release addr).toOption.getD memory
  | .write addr bytes => (memory.write addr bytes).toOption.getD memory
  | .read .. | .text .. => memory

variable (calls : List Call)

def history : Memory := calls.foldl after {}

def start (num : Nat) : Nat := 2 ^ 32 * (num + 1)

/-- The address is that of a byte of the region, which need not be alive or so large. -/
structure At (addr : UInt64) (num off : Nat) : Prop where
  inside : off < 2 ^ 32
  value : addr.toNat = start num + off

structure Entry where
  size : Nat
  live : Bool := true
  /-- The byte last written at an offset. -/
  byte : Nat → UInt8 := fun _ => 0

namespace Entry

variable (entry : Entry) (off : Nat)

/-- Bytes from an offset on are replaced. -/
def write (bytes : List UInt8) : Entry :=
  { entry with byte := fun k => if k < off then entry.byte k else (bytes[k - off]?).getD (entry.byte k) }

theorem size_write (bytes : List UInt8) :
    (entry.write off bytes).size = entry.size := rfl

theorem live_write (bytes : List UInt8) :
    (entry.write off bytes).live = entry.live := rfl

/-- What a call does to the region of a number. -/
def after (num : Nat) : Call → Entry
  | .release addr => if addr.toNat = start num then { entry with live := false } else entry
  | .write addr bytes =>
    if entry.live ∧ start num ≤ addr.toNat ∧ addr.toNat + bytes.length ≤ start num + entry.size then
      entry.write (addr.toNat - start num) bytes
    else entry
  | _ => entry

end Entry

abbrev Ledger := List Entry

namespace Ledger

def after (ledger : Ledger) : Call → Ledger
  | .allocate size => if size < 2 ^ 32 then ledger ++ [{ size }] else ledger
  | call => ledger.mapIdx fun num entry => entry.after num call

/-- The address is that of a byte of a live region. -/
structure Live (ledger : Ledger) (addr : UInt64) (num off : Nat) (entry : Entry) : Prop where
  place : At addr num off
  found : ledger[num]? = some entry
  live : entry.live

end Ledger

def ledger : Ledger := calls.foldl Ledger.after []

section
variable {memory : Memory} {ledger : Ledger} {addr : UInt64} {num off : Nat} {entry : Entry}
  {region : Region}

theorem At.unique (place : At addr num off) (other : At addr num' off') :
    num = num' ∧ off = off' := by
  have := place.inside
  have := other.inside
  have := place.value.symm.trans other.value
  unfold start at this
  omega

theorem split_iff : split addr = .ok (num, off) ↔ num + 1 < 2 ^ 31 ∧ At addr num off := by
  have limit : regionLimit = 2147483647 := rfl
  rw [split_ok]
  constructor
  · rintro ⟨small, inside, val⟩
    exact ⟨by omega, inside, val.trans (by rw [start, Nat.mul_comm])⟩
  · rintro ⟨small, inside, val⟩
    exact ⟨by omega, inside, val.trans (by rw [start, Nat.mul_comm])⟩

theorem At.ne_zero (place : At addr num off) : addr ≠ 0 := by
  rintro rfl
  have := place.value
  unfold start at this
  simp at this
  omega

/-- No region changes its size, and none comes back to life. -/
theorem Entry.after_keeps (entry : Entry) (num : Nat) (call : Call) :
    (entry.after num call).size = entry.size ∧ ((entry.after num call).live → entry.live) := by
  cases call with
  | release addr =>
    simp only [after]
    split
    · exact ⟨rfl, nofun⟩
    · exact ⟨rfl, id⟩
  | write addr bytes =>
    simp only [after]
    split
    · rw [size_write, live_write]
      exact ⟨rfl, id⟩
    · exact ⟨rfl, id⟩
  | _ => exact ⟨rfl, id⟩

/-- The bytes stand from the offset on; none of them is zero, but the byte behind them is. -/
structure Spells (byte : Nat → UInt8) (off : Nat) (bytes : List UInt8) : Prop where
  stand : bytes = (range bytes.length).map fun i => byte (off + i)
  filled : 0 ∉ bytes
  ends : byte (off + bytes.length) = 0

theorem spells_cons :
    Spells byte off (first :: bytes) ↔ first = byte off ∧ first ≠ 0 ∧
      Spells byte (off + 1) bytes := by
  have shift : ∀ i, off + 1 + i = off + (i + 1) := fun i => by omega
  constructor
  · rintro ⟨stand, filled, ends⟩
    rw [length_cons, range_succ_eq_map, map_cons, map_map] at stand
    obtain ⟨head, tail⟩ := cons.inj stand
    rw [mem_cons, not_or] at filled
    refine ⟨head, fun zero => filled.1 zero.symm, ?_, filled.2, ?_⟩
    · simpa only [shift, Function.comp_def] using tail
    · simpa only [shift, length_cons] using ends
  · rintro ⟨head, nonzero, stand, filled, ends⟩
    refine ⟨?_, ?_, ?_⟩
    · rw [length_cons, range_succ_eq_map, map_cons, map_map]
      refine congrArg₂ _ head ?_
      simpa only [shift, Function.comp_def] using stand
    · rw [mem_cons, not_or]
      exact ⟨fun zero => nonzero zero.symm, filled⟩
    · simpa only [shift, length_cons] using ends

theorem textWithin_eq {count : Nat} :
    region.textWithin off count = some bytes ↔ bytes.length < count ∧
      Spells region.byte off bytes := by
  induction count generalizing off bytes with
  | zero => simp [Region.textWithin]
  | succ count ih =>
    by_cases zero : region.byte off = 0
    · simp only [Region.textWithin, zero, if_true, Option.some.injEq]
      constructor
      · rintro rfl
        exact ⟨Nat.succ_pos _, rfl, not_mem_nil, zero⟩
      · rintro ⟨-, spells⟩
        cases bytes with
        | nil => rfl
        | cons first rest =>
          obtain ⟨head, nonzero, -⟩ := spells_cons.mp spells
          exact absurd (head.trans zero) nonzero
    · simp only [Region.textWithin, zero, if_false, Option.map_eq_some_iff, ih]
      constructor
      · rintro ⟨rest, ⟨less, spells⟩, rfl⟩
        exact ⟨Nat.succ_lt_succ less, spells_cons.mpr ⟨rfl, zero, spells⟩⟩
      · rintro ⟨less, spells⟩
        cases bytes with
        | nil => exact absurd spells.ends zero
        | cons first rest =>
          obtain ⟨rfl, -, spells⟩ := spells_cons.mp spells
          exact ⟨rest, ⟨Nat.lt_of_succ_lt_succ less, spells⟩, rfl⟩

theorem text_ok {bytes : List UInt8} : memory.text addr = .ok bytes ↔
    ∃ num region off, memory.region addr = .ok (num, region, off) ∧
      off + bytes.length < region.size ∧ Spells region.byte off bytes := by
  simp only [text, Success.bind_ok, Prod.exists]
  refine exists_congr fun num => exists_congr fun region => exists_congr fun off => and_congr_right fun _ => ?_
  by_cases outside : off > region.size
  · simp only [outside, if_true]
    refine ⟨fun thrown => absurd thrown (by simp [throw, throwThe, MonadExceptOf.throw]), ?_⟩
    rintro ⟨less, -⟩
    omega
  · simp only [outside, if_false]
    cases found : region.textWithin off (region.size - off) with
    | none =>
      have none : ¬ (bytes.length < region.size - off ∧ Spells region.byte off bytes) := by
        simp [← textWithin_eq, found]
      refine ⟨fun thrown => absurd thrown (by simp [throw, throwThe, MonadExceptOf.throw]), ?_⟩
      rintro ⟨less, spells⟩
      exact absurd ⟨by omega, spells⟩ none
    | some found' =>
      have some : found' = bytes ↔ bytes.length < region.size - off ∧ Spells region.byte off bytes := by
        rw [← textWithin_eq, found, Option.some.injEq]
      constructor
      · intro same
        obtain ⟨less, spells⟩ := some.mp (Success.pure_ok.mp same)
        exact ⟨by omega, spells⟩
      · rintro ⟨less, spells⟩
        exact Success.pure_ok.mpr (some.mpr ⟨by omega, spells⟩)

namespace Ledger

theorem getElem?_after (kept : ∀ size, call ≠ .allocate size) :
    (ledger.after call)[num]? = ledger[num]?.map (·.after num call) := by
  cases call with
  | allocate size => exact absurd rfl (kept size)
  | _ => exact getElem?_mapIdx

theorem length_after (kept : ∀ size, call ≠ .allocate size) :
    (ledger.after call).length = ledger.length := by
  cases call with
  | allocate size => exact absurd rfl (kept size)
  | _ => exact length_mapIdx

theorem length_le_after (ledger : Ledger) (call : Call) :
    ledger.length ≤ (ledger.after call).length := by
  cases call with
  | allocate size =>
    simp only [after]
    split <;> simp
  | _ => exact Nat.le_of_eq (length_after (by simp)).symm

theorem exists_after (found : ledger[num]? = some entry) (call : Call) :
    ∃ entry', (ledger.after call)[num]? = some entry' ∧ (entry'.live → entry.live) := by
  cases call with
  | allocate size =>
    refine ⟨entry, ?_, id⟩
    simp only [after]
    split
    · rw [List.getElem?_append_left (List.getElem?_eq_some_iff.mp found).1, found]
    · exact found
  | _ =>
    rw [getElem?_after (by simp), found]
    exact ⟨_, rfl, (entry.after_keeps num _).2⟩

end Ledger

def Entry.known (entry : Entry) : Option (Nat × (Nat → UInt8)) :=
  if entry.live then some (entry.size, entry.byte) else none

/-- Memory has the regions that the ledger says are alive, and no others. -/
structure Refines (memory : Memory) (ledger : Ledger) : Prop where
  count : memory.count = ledger.length
  small : ∀ entry ∈ ledger, entry.size < 2 ^ 32
  regions : ∀ num : Nat, (memory.regions.get? num).map (fun region => (region.size, region.byte)) =
    ledger[num]?.bind Entry.known

namespace Refines

theorem empty : Refines {} [] := ⟨rfl, forall_mem_nil _, fun _ => rfl⟩

section
variable (refines : memory.Refines ledger)
include refines

theorem exists_entry (there : memory.regions.get? num = some region) :
    ∃ entry, ledger[num]? = some entry ∧ entry.live ∧ entry.size = region.size ∧
      entry.byte = region.byte := by
  have known := refines.regions num
  rw [there, Option.map_some, eq_comm, Option.bind_eq_some_iff] at known
  obtain ⟨entry, found, known⟩ := known
  obtain ⟨live, same⟩ := Option.ite_none_right_eq_some.mp known
  obtain ⟨size, byte⟩ := Prod.mk.inj (Option.some.inj same)
  exact ⟨entry, found, live, size, byte⟩

theorem exists_region (found : ledger[num]? = some entry) (live : entry.live) :
    ∃ region, memory.regions.get? num = some region ∧ region.size = entry.size ∧
      region.byte = entry.byte := by
  have known := refines.regions num
  rw [found, Option.bind_some, Entry.known, if_pos live] at known
  obtain ⟨region, there, same⟩ := Option.map_eq_some_iff.mp known
  exact ⟨region, there, Prod.mk.inj same⟩

end

section
variable (refines : memory.Refines ledger) (few : ledger.length < 2 ^ 31)
include refines few

theorem region_iff (property : Nat → (Nat → UInt8) → Prop) :
    (∃ region, memory.region addr = .ok (num, region, off) ∧ property region.size region.byte) ↔
      ∃ entry, ledger.Live addr num off entry ∧ property entry.size entry.byte := by
  simp only [region_ok]
  constructor
  · rintro ⟨region, ⟨splits, there⟩, holds⟩
    obtain ⟨entry, kept, live, size, byte⟩ := refines.exists_entry there
    rw [← size, ← byte] at holds
    exact ⟨entry, ⟨(split_iff.mp splits).2, kept, live⟩, holds⟩
  · rintro ⟨entry, ⟨place, kept, live⟩, holds⟩
    obtain ⟨region, there, size, byte⟩ := refines.exists_region kept live
    rw [← size, ← byte] at holds
    have inside := (List.getElem?_eq_some_iff.mp kept).1
    exact ⟨region, ⟨split_iff.mpr ⟨by omega, place⟩, there⟩, holds⟩

theorem read_iff {count : Nat} : memory.read addr count = .ok bytes ↔
    ∃ num off entry, ledger.Live addr num off entry ∧ off + count ≤ entry.size ∧
      bytes = (range count).map fun i => entry.byte (off + i) := by
  rw [read_ok]
  refine exists_congr fun num => ?_
  rw [exists_comm]
  refine exists_congr fun off => ?_
  refine Iff.trans ?_ (refines.region_iff few fun size byte =>
    off + count ≤ size ∧ bytes = (range count).map fun i => byte (off + i))
  simp only [Region.read, eq_comm]

theorem write_iff : (∃ memory', memory.write addr bytes = .ok memory') ↔
    ∃ num off entry, ledger.Live addr num off entry ∧ off + bytes.length ≤ entry.size := by
  simp only [write_ok]
  rw [exists_comm]
  refine exists_congr fun num => ?_
  simp only [exists_comm (α := Memory), ← and_assoc, exists_and_left, exists_eq', and_true]
  rw [exists_comm]
  exact exists_congr fun off => refines.region_iff few fun size _ => off + bytes.length ≤ size

theorem release_iff : (∃ memory', memory.release addr = .ok memory') ↔
    addr = 0 ∨ ∃ num entry, ledger.Live addr num 0 entry := by
  have regions (num : Nat) := @region_iff _ _ addr num 0 refines few fun _ _ => True
  simp only [region_ok, and_true, exists_and_left] at regions
  simp only [release_ok, Option.isSome_iff_exists, ← regions, exists_or, exists_and_left, exists_eq', and_true]
  rw [exists_comm]
  simp only [exists_and_left, exists_eq', and_true]

theorem text_iff : memory.text addr = .ok bytes ↔
    ∃ num off entry, ledger.Live addr num off entry ∧ off + bytes.length < entry.size ∧
      Spells entry.byte off bytes := by
  rw [text_ok]
  refine exists_congr fun num => ?_
  rw [exists_comm]
  exact exists_congr fun off => refines.region_iff few fun size byte =>
    off + bytes.length < size ∧ Spells byte off bytes

end

section
variable (refines : memory.Refines ledger)
include refines

theorem mapped (kept : ∀ size, call ≠ .allocate size) {memory' : Memory}
    (count : memory'.count = memory.count)
    (regions : ∀ num : Nat, (memory'.regions.get? num).map (fun region =>
      (region.size, region.byte)) = ledger[num]?.bind fun entry => (entry.after num call).known) :
    memory'.Refines (ledger.after call) where
  count := count.trans (refines.count.trans (Ledger.length_after kept).symm)
  small entry mem := by
    obtain ⟨num, found⟩ := mem_iff_getElem?.mp mem
    rw [Ledger.getElem?_after kept] at found
    obtain ⟨before, known, rfl⟩ := Option.map_eq_some_iff.mp found
    rw [(before.after_keeps num call).1]
    exact refines.small before (mem_of_getElem? known)
  regions num := by
    rw [Ledger.getElem?_after kept, regions]
    cases ledger[num]? <;> rfl

theorem allocate_step (size : Nat) :
    (memory.after (.allocate size)).Refines (ledger.after (.allocate size)) := by
  by_cases small : size < 2 ^ 32
  · simp only [after, allocate_ok.mpr ⟨small, rfl⟩, Ledger.after, small, if_true, Except.map, Except.toOption,
      Option.getD_some]
    refine ⟨by simp [refines.count], ?_, fun num => ?_⟩
    · exact forall_mem_append.mpr ⟨refines.small, forall_mem_singleton.mpr small⟩
    · rw [Sparse.get?_insert, refines.count]
      rcases Nat.lt_trichotomy num ledger.length with old | rfl | above
      · rw [if_neg (by omega), getElem?_append_left old]
        exact refines.regions num
      · rw [if_pos rfl, getElem?_concat_length]
        rfl
      · rw [if_neg (by omega), refines.regions, getElem?_eq_none (by omega),
          getElem?_eq_none (by rw [length_append, length_singleton]; omega)]
  · have large : ∀ made, memory.allocate size ≠ .ok made := fun made given => small (allocate_ok.mp given).1
    cases made : memory.allocate size with
    | ok res => exact absurd made (large res)
    | error fault =>
      simp only [after, made, Ledger.after, small, if_false]
      exact refines

variable (few : ledger.length < 2 ^ 31)
include few

theorem release_step (addr : UInt64) :
    (memory.after (.release addr)).Refines (ledger.after (.release addr)) := by
  cases released : memory.release addr with
  | error fault =>
    simp only [after, released, Except.toOption, Option.getD_none]
    refine refines.mapped (by simp) rfl fun num => (refines.regions num).trans ?_
    refine Option.bind_congr fun entry found => ?_
    simp only [Entry.after]
    split
    · next first =>
      -- the entry was dead already, or its region would have been released
      refine if_neg fun live => ?_
      obtain ⟨memory', succeeds⟩ := (refines.release_iff few).mpr
        (.inr ⟨num, entry, ⟨Nat.two_pow_pos 32, first⟩, found, live⟩)
      cases released.symm.trans succeeds
    · rfl
  | ok memory' =>
    simp only [after, released, Except.toOption, Option.getD_some]
    rcases release_ok.mp released with ⟨rfl, rfl⟩ | ⟨freed, splits, alive, rfl⟩
    · refine refines.mapped (by simp) rfl fun num => (refines.regions num).trans ?_
      have apart : (0 : UInt64).toNat ≠ start num := fun first => At.ne_zero ⟨Nat.two_pow_pos 32, first⟩ rfl
      simp only [Entry.after, apart, if_false]
    · refine refines.mapped (by simp) rfl fun num => ?_
      have same : addr.toNat = start num ↔ num = freed := by
        rw [(split_iff.mp splits).2.value, start, start]
        omega
      simp only [Entry.after, same, Sparse.get?_erase]
      split
      · cases ledger[num]? <;> rfl
      · exact refines.regions num

theorem write_step (addr : UInt64) (bytes : List UInt8) :
    (memory.after (.write addr bytes)).Refines (ledger.after (.write addr bytes)) := by
  cases written : memory.write addr bytes with
  | error fault =>
    simp only [after, written, Except.toOption, Option.getD_none]
    refine refines.mapped (by simp) rfl fun num => (refines.regions num).trans ?_
    refine Option.bind_congr fun entry found => ?_
    simp only [Entry.after]
    rw [if_neg]
    rintro ⟨live, low, high⟩
    have small := refines.small entry (mem_of_getElem? found)
    obtain ⟨memory', succeeds⟩ := (@write_iff _ _ addr refines few bytes).mpr
      ⟨num, addr.toNat - start num, entry, ⟨⟨by omega, by omega⟩, found, live⟩, by omega⟩
    cases written.symm.trans succeeds
  | ok memory' =>
    simp only [after, written, Except.toOption, Option.getD_some]
    obtain ⟨target, region, off, lies, inside, rfl⟩ := write_ok.mp written
    obtain ⟨splits, there⟩ := region_ok.mp lies
    have place := (split_iff.mp splits).2
    have val := place.value
    refine refines.mapped (by simp) rfl fun num => ?_
    rw [Sparse.get?_insert]
    split
    · next same =>
      subst same
      obtain ⟨entry, found, live, size, byte⟩ := refines.exists_entry there
      simp only [found, Option.bind_some, Option.map_some, Entry.after]
      rw [if_pos ⟨live, by omega, by omega⟩, show addr.toNat - start num = off by omega, Entry.known,
        Entry.live_write, if_pos live, Entry.size_write, Region.size_write, size]
      refine congrArg (fun byte => some (region.size, byte)) (funext fun k => ?_)
      rw [Region.byte_write, ← byte]
      rfl
    · next apart =>
      refine (refines.regions num).trans (Option.bind_congr fun entry found => ?_)
      simp only [Entry.after]
      rw [if_neg]
      rintro ⟨-, low, high⟩
      have small := refines.small entry (mem_of_getElem? found)
      have other : At addr num (addr.toNat - start num) := ⟨by omega, by omega⟩
      exact apart (other.unique place).1

theorem step (call : Call) : (memory.after call).Refines (ledger.after call) := by
  cases call with
  | allocate size => exact refines.allocate_step size
  | release addr => exact refines.release_step few addr
  | write addr bytes => exact refines.write_step few addr bytes
  | read | text => exact refines.mapped (by simp) rfl refines.regions

end

end Refines
end

theorem history_concat (call : Call) : history (calls ++ [call]) = (history calls).after call :=
  foldl_concat ..

theorem ledger_concat (call : Call) : ledger (calls ++ [call]) = (ledger calls).after call :=
  foldl_concat ..

theorem history_refines {calls : List Call} (few : (ledger calls).length < 2 ^ 31) :
    (history calls).Refines (ledger calls) := by
  induction calls using reverseRecOn with
  | nil => exact .empty
  | append_singleton calls call ih =>
    rw [ledger_concat] at few
    have fewer := Nat.lt_of_le_of_lt (Ledger.length_le_after _ call) few
    rw [history_concat, ledger_concat]
    exact (ih fewer).step fewer call

theorem exists_ledger_append {calls : List Call} {num : Nat} {entry : Entry}
    (found : (ledger calls)[num]? = some entry) (more : List Call) :
    ∃ entry', (ledger (calls ++ more))[num]? = some entry' ∧ (entry'.live → entry.live) := by
  induction more using reverseRecOn with
  | nil => exact ⟨entry, by rwa [append_nil], id⟩
  | append_singleton more call ih =>
    obtain ⟨middle, kept, alive⟩ := ih
    obtain ⟨entry', kept', alive'⟩ := Ledger.exists_after kept call
    rw [← append_assoc, ledger_concat]
    exact ⟨entry', kept', alive ∘ alive'⟩

theorem length_ledger_le (more : List Call) :
    (ledger calls).length ≤ (ledger (calls ++ more)).length := by
  induction more using reverseRecOn with
  | nil => rw [append_nil]
  | append_singleton more call ih =>
    rw [← append_assoc, ledger_concat]
    exact Nat.le_trans ih (Ledger.length_le_after _ call)

def Returned (addr : UInt64) : Prop :=
  ∃ early size late memory, calls = early ++ .allocate size :: late ∧
    (history early).allocate size = .ok (addr, memory)

def Ended (num : Nat) : Prop :=
  ∃ early addr late memory, calls = early ++ .release addr :: late ∧ At addr num 0 ∧
    (history early).release addr = .ok memory

section
variable {calls : List Call} {addr : UInt64} {num : Nat}

theorem at_regionAddress (small : num + 1 < 2 ^ 31) : At (regionAddress num) num 0 := by
  have limit : regionLimit = 2147483647 := rfl
  exact (split_iff.mp (split_regionAddress (by omega))).2

theorem Returned.exists_number (returned : Returned calls addr)
    (few : (ledger calls).length < 2 ^ 31) :
    ∃ num, num < (ledger calls).length ∧ At addr num 0 := by
  obtain ⟨early, size, late, memory, rfl, made⟩ := returned
  obtain ⟨small, made⟩ := allocate_ok.mp made
  obtain ⟨rfl, -⟩ := Prod.mk.inj made
  have grown : (ledger (early ++ [.allocate size])).length = (ledger early).length + 1 := by
    simp only [ledger_concat, Ledger.after, small, if_true, length_append, length_singleton]
  have later := length_ledger_le (early ++ [.allocate size]) late
  rw [append_assoc, singleton_append] at later
  have count := (history_refines (show (ledger early).length < 2 ^ 31 by omega)).count
  exact ⟨(history early).count, by omega, at_regionAddress (by omega)⟩

theorem Ended.exists_entry (ended : Ended calls num) (few : (ledger calls).length < 2 ^ 31) :
    ∃ entry, (ledger calls)[num]? = some entry ∧ ¬ entry.live := by
  obtain ⟨early, addr, late, memory, rfl, place, released⟩ := ended
  have fewer := Nat.lt_of_le_of_lt (length_ledger_le early (.release addr :: late)) few
  rcases ((history_refines fewer).release_iff fewer).mp ⟨memory, released⟩ with zero | ⟨other, entry, live⟩
  · exact absurd zero place.ne_zero
  obtain ⟨rfl, -⟩ := place.unique live.place
  have dead : (ledger (early ++ [.release addr]))[num]? = some { entry with live := false } := by
    have first : addr.toNat = start num := place.value
    rw [ledger_concat, Ledger.getElem?_after (by simp), live.found]
    simp only [Option.map_some, Entry.after, first, if_true]
  obtain ⟨entry', kept, alive⟩ := exists_ledger_append dead late
  rw [append_assoc, singleton_append] at kept
  exact ⟨entry', kept, fun live => nomatch alive live⟩

theorem Ended.not_live (ended : Ended calls num) (few : (ledger calls).length < 2 ^ 31) {off : Nat}
    (place : At addr num off) (num' off' : Nat) (entry : Entry) :
    ¬ (ledger calls).Live addr num' off' entry := by
  rintro ⟨place', found, live⟩
  obtain ⟨entry', found', dead⟩ := ended.exists_entry few
  obtain ⟨rfl, -⟩ := place.unique place'
  cases found.symm.trans found'
  exact dead live

/-- Bytes at an address, once others are written at some address. -/
def overwrite (addr : UInt64) (bytes : List UInt8) (other : UInt64) (old : List UInt8) :
    List UInt8 :=
  old.mapIdx fun i byte =>
    if other.toNat + i < addr.toNat then byte else (bytes[other.toNat + i - addr.toNat]?).getD byte

theorem overwrite_map (bytes : List UInt8) (other : UInt64) (count : Nat) (byte : Nat → UInt8) :
    overwrite addr bytes other ((range count).map byte) = (range count).map fun i =>
      if other.toNat + i <
        addr.toNat then byte i else (bytes[other.toNat + i - addr.toNat]?).getD (byte i) := by
  apply ext_getElem?
  intro i
  simp only [overwrite, getElem?_mapIdx, getElem?_map]
  by_cases less : i < count
  · simp [less]
  · simp [less]

/-- A write is seen where it was made: at the bytes written of one region, and nowhere else. -/
theorem Refines.read_write {memory memory' : Memory} {ledger : Ledger}
    (refines : memory.Refines ledger) (few : ledger.length < 2 ^ 31)
    (written : memory.write addr bytes = .ok memory') {other : UInt64} {count : Nat}
    {new : List UInt8} : memory'.read other count = .ok new ↔
      ∃ old, memory.read other count = .ok old ∧ new = overwrite addr bytes other old := by
  have step := refines.write_step few addr bytes
  simp only [Memory.after, written, Except.toOption, Option.getD_some] at step
  obtain ⟨target, start', aim, ⟨place, aimed, -⟩, inside⟩ := (refines.write_iff few).mp ⟨memory', written⟩
  have each {num off : Nat} {entry : Entry} (place' : At other num off)
      (found : ledger[num]? = some entry) (live : entry.live) (fits : off + count ≤ entry.size) :
      (range count).map (fun i => (entry.after num (.write addr bytes)).byte (off + i)) =
        overwrite addr bytes other ((range count).map fun i => entry.byte (off + i)) := by
    have val := place.value
    have val' := place'.value
    have small := refines.small entry (mem_of_getElem? found)
    have small' := refines.small aim (mem_of_getElem? aimed)
    rw [overwrite_map]
    refine map_congr_left fun i mem => ?_
    have := mem_range.mp mem
    by_cases same : num = target
    · subst same
      cases found.symm.trans aimed
      simp only [Entry.after, Entry.write]
      rw [if_pos ⟨live, by omega, by omega⟩, show addr.toNat - start num = start' by omega,
        show other.toNat + i - addr.toNat = off + i - start' by omega]
      exact ite_congr (propext (by omega)) (fun _ => rfl) fun _ => rfl
    · -- Bytes of other regions lie before or behind.
      have kept : entry.after num (.write addr bytes) = entry := by
        refine if_neg fun ⟨_, low, high⟩ => ?_
        have here : At addr num (addr.toNat - start num) := ⟨by omega, by omega⟩
        exact same (here.unique place).1
      simp only [start] at val val'
      rw [kept]
      rcases Nat.lt_or_gt_of_ne same with before | behind
      · rw [if_pos (by omega)]
      · rw [getElem?_eq_none (by omega), Option.getD_none, ite_self]
  rw [step.read_iff (by rwa [Ledger.length_after (by simp)])]
  simp only [refines.read_iff few]
  constructor
  · rintro ⟨num, off, _, ⟨place', found, live⟩, fits, rfl⟩
    rw [Ledger.getElem?_after (by simp)] at found
    obtain ⟨entry, before, rfl⟩ := Option.map_eq_some_iff.mp found
    obtain ⟨size, alive⟩ := entry.after_keeps num (.write addr bytes)
    rw [size] at fits
    exact ⟨_, ⟨num, off, entry, ⟨place', before, alive live⟩, fits, rfl⟩, each place' before (alive live) fits⟩
  · rintro ⟨_, ⟨num, off, entry, ⟨place', found, live⟩, fits, rfl⟩, rfl⟩
    have kept : (entry.after num (.write addr bytes)).live = entry.live := by
      rw [Entry.after, apply_ite Entry.live, Entry.live_write, ite_self]
    refine ⟨num, off, entry.after num (.write addr bytes), ⟨place', ?_, kept.trans live⟩, ?_,
      (each place' found live fits).symm⟩
    · rw [Ledger.getElem?_after (by simp), found, Option.map_some]
    · rwa [(entry.after_keeps num _).1]

end

theorem fault_of_not_ok {α : Type} {res : Except Fault α} (never : ∀ val, res ≠ .ok val) :
    ∃ fault, res = .error fault := by
  cases res with
  | error fault => exact ⟨fault, rfl⟩
  | ok val => exact absurd rfl (never val)

/-- What memory does after a history of calls. -/
structure Safe (calls : List Call) : Prop where
  /-- Allocation fails for sizes without addresses only. -/
  allocate (size : Nat) : (∃ made, (history calls).allocate size = .ok made) ↔ size < 2 ^ 32
  /-- A fresh region is all zeros, and its address was never given out before. -/
  fresh (size : Nat) (addr : UInt64) (memory : Memory) (few : (ledger calls).length + 1 < 2 ^ 31) :
    (history calls).allocate size = .ok (addr, memory) →
      ∃ num, At addr num 0 ∧ memory.read addr size = .ok (replicate size 0) ∧
        ∀ earlier off, Returned calls earlier → ¬ At earlier num off
  /-- Reads are in bounds of a live region, and give the bytes last written. -/
  read (addr : UInt64) (count : Nat) (bytes : List UInt8) :
    (history calls).read addr count = .ok bytes ↔
    ∃ num off entry, (ledger calls).Live addr num off entry ∧ off + count ≤ entry.size ∧
      bytes = (range count).map fun i => entry.byte (off + i)
  /-- So are writes. -/
  write (addr : UInt64) (bytes : List UInt8) :
    (∃ memory, (history calls).write addr bytes = .ok memory) ↔
    ∃ num off entry, (ledger calls).Live addr num off entry ∧ off + bytes.length ≤ entry.size
  /-- Only the bytes that are written change. -/
  frame (addr : UInt64) (bytes : List UInt8) (memory : Memory) :
    (history calls).write addr bytes = .ok memory →
    ∀ other count new, memory.read other count = .ok new ↔
      ∃ old, (history calls).read other count = .ok old ∧ new = overwrite addr bytes other old
  /-- A text ends at the first zero, inside of a live region. -/
  text (addr : UInt64) (bytes : List UInt8) : (history calls).text addr = .ok bytes ↔
    ∃ num off entry, (ledger calls).Live addr num off entry ∧ off + bytes.length < entry.size ∧
      Spells entry.byte off bytes
  /-- What is released is null or the start of a live region. -/
  release (addr : UInt64) : (∃ memory, (history calls).release addr = .ok memory) ↔
    addr = 0 ∨ ∃ num entry, (ledger calls).Live addr num 0 entry
  /-- No address of a released region is of use again. -/
  ended (num : Nat) : Ended calls num → ∀ addr off, At addr num off →
    (∀ count, ∃ fault, (history calls).read addr count = .error fault) ∧
    (∀ bytes, ∃ fault, (history calls).write addr bytes = .error fault) ∧
    (∃ fault, (history calls).text addr = .error fault) ∧
    ∃ fault, (history calls).release addr = .error fault

/-- While the regions have numbers, memory never gives out what was released or lies outside. -/
theorem histories_safe {calls : List Call} (few : (ledger calls).length < 2 ^ 31) : Safe calls where
  allocate size := by
    simp only [allocate_ok]
    exact ⟨fun ⟨_, small, _⟩ => small, fun small => ⟨_, small, rfl⟩⟩
  fresh size addr memory few' made := by
    have refines := history_refines few
    obtain ⟨small, made⟩ := allocate_ok.mp made
    obtain ⟨rfl, rfl⟩ := Prod.mk.inj made
    rw [refines.count]
    have place := at_regionAddress few'
    refine ⟨(ledger calls).length, place, ?_, fun earlier off returned place' => ?_⟩
    · have splits : split (regionAddress (ledger calls).length) = .ok ((ledger calls).length, 0) :=
        split_iff.mpr ⟨few', place⟩
      refine read_ok.mpr ⟨(ledger calls).length, { size }, 0, region_ok.mpr ⟨splits, ?_⟩, by simp, ?_⟩
      · rw [Sparse.get?_insert, if_pos rfl]
      · simp [Region.read, Region.byte]
    · obtain ⟨num, less, first⟩ := returned.exists_number few
      have := (first.unique place').1
      omega
  read addr count bytes := (history_refines few).read_iff few
  write addr bytes := (history_refines few).write_iff few
  frame addr bytes memory written other count new := (history_refines few).read_write few written
  text addr bytes := (history_refines few).text_iff few
  release addr := (history_refines few).release_iff few
  ended num ended addr off place := by
    have refines := history_refines few
    have dead := ended.not_live few place
    refine ⟨fun count => fault_of_not_ok fun bytes reads => ?_, fun bytes => fault_of_not_ok fun memory writes => ?_,
      fault_of_not_ok fun bytes spells => ?_, fault_of_not_ok fun memory releases => ?_⟩
    · obtain ⟨num', off', entry, live, -⟩ := (refines.read_iff few).mp reads
      exact dead num' off' entry live
    · obtain ⟨num', off', entry, live, -⟩ := (refines.write_iff few).mp ⟨memory, writes⟩
      exact dead num' off' entry live
    · obtain ⟨num', off', entry, live, -⟩ := (refines.text_iff few).mp spells
      exact dead num' off' entry live
    · rcases (refines.release_iff few).mp ⟨memory, releases⟩ with zero | ⟨num', entry, live⟩
      · exact place.ne_zero zero
      · exact dead num' 0 entry live

/-- A region is written, released and followed by another one. -/
def reuse : List Call :=
  [.allocate 4, .write (regionAddress 0) [7, 8], .release (regionAddress 0), .allocate 2]

theorem reuse_safe : (ledger reuse).length < 2 ^ 31 ∧ Safe reuse ∧ Ended reuse 0 := by
  have few : (ledger reuse).length < 2 ^ 31 := by decide
  have place : At (regionAddress 0) 0 0 := ⟨by decide, by decide⟩
  have released : Ended reuse 0 := ⟨reuse.take 2, regionAddress 0, [.allocate 2], _, rfl, place, rfl⟩
  exact ⟨few, histories_safe few, released⟩

end TernLang.Machine.Memory
