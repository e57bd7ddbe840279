import TernLang.Machine.Fault
import TernLang.Sparse

/-! Memory in regions. Every global, stack slot and heap block has a region of its own; an
address is a region number and a byte offset in it, so that no access reaches a neighbour.
Addresses of functions carry a tag and are no memory. -/
namespace TernLang.Machine

/-- Bytes that were never written are zero. -/
structure Region where
  size : Nat
  bytes : Sparse UInt8 := .empty

namespace Region

def byte (region : Region) (off : Nat) : UInt8 := (region.bytes.get? off).getD 0

def read (region : Region) (off count : Nat) : List UInt8 :=
  (List.range count).map fun i => region.byte (off + i)

def write (region : Region) (off : Nat) : List UInt8 → Region
  | [] => region
  | byte :: rest => { region with bytes := region.bytes.insert off byte }.write (off + 1) rest

/-- Bytes up to the first zero among so many. -/
def textWithin (region : Region) (off : Nat) : (count : Nat) → Option (List UInt8)
  | 0 => none
  | count + 1 =>
    let byte := region.byte off
    if byte = 0 then some [] else (textWithin region (off + 1) count).map (byte :: ·)

end Region

structure Memory where
  /-- Regions made so far. -/
  count : Nat := 0
  /-- The live ones, by number. -/
  regions : Sparse Region := .empty

/-- Greatest offset of an address. -/
def offsetLimit : Nat := twoPow 32 - 1

def functionTag : UInt64 := 0x8000000000000000

def regionAddress (num : Nat) : UInt64 := (num + 1).toUInt64 <<< 32

/-- Region number and offset of an address. -/
def split (address : UInt64) : Except Fault (Nat × Nat) :=
  if address &&& functionTag != 0 then throw .functionAsData
  else match (address >>> 32).toNat with
    | 0 => throw .nullDereference
    | number + 1 => return (number, (address &&& 0xFFFFFFFF).toNat)

namespace Memory

/-- A fresh region of zeros; the result is its address. -/
def allocate (memory : Memory) (size : Nat) : Except Fault (UInt64 × Memory) :=
  if size > offsetLimit then throw (.tooLarge size)
  else return (regionAddress memory.count,
    ⟨memory.count + 1, memory.regions.insert memory.count { size }⟩)

/-- End the life of a region, given its start. Null is released freely. -/
def release (memory : Memory) (addr : UInt64) : Except Fault Memory := do
  if addr = 0 then return memory
  let (num, off) ← split addr
  if off = 0 ∧ (memory.regions.get? num).isSome then
    return { memory with regions := memory.regions.erase num }
  else throw (.invalidFree addr)

/-- Release in order, up to the first failure. -/
def releaseAll (memory : Memory) : List UInt64 → Except Fault Memory
  | [] => return memory
  | addr :: rest => do (← memory.release addr).releaseAll rest

/-- The region of an address with its number, and the offset in it. -/
def region (memory : Memory) (addr : UInt64) : Except Fault (Nat × Region × Nat) := do
  let (num, off) ← split addr
  match memory.regions.get? num with
  | some region => return (num, region, off)
  | none => throw (.freed addr)

def read (memory : Memory) (addr : UInt64) (count : Nat) : Except Fault (List UInt8) := do
  let (_, region, off) ← memory.region addr
  if off + count ≤ region.size then return region.read off count
  else throw (.badRead addr)

def write (memory : Memory) (addr : UInt64) (bytes : List UInt8) : Except Fault Memory := do
  let (num, region, off) ← memory.region addr
  if off + bytes.length ≤ region.size then
    return { memory with regions := memory.regions.insert num (region.write off bytes) }
  else throw (.badWrite addr)

/-- Bytes of a NUL-terminated text, without the NUL. -/
def text (memory : Memory) (addr : UInt64) : Except Fault (List UInt8) := do
  let (_, region, off) ← memory.region addr
  if off > region.size then throw (.badRead addr)
  match region.textWithin off (region.size - off) with
  | some bytes => return bytes
  | none => throw .unterminated

end Memory
end TernLang.Machine
