import Mathlib.Data.List.Nodup
import Mathlib.Data.Nat.Bitwise
import TernLang.Machine.Storage
import TernLang.Proofs.Success

/-! Regions by their numbers. The address of a region leads back to it as long as numbers stay
below a limit, regions are released one by one, and integers are read as they were written. -/
namespace TernLang.Machine

open List

/-- The address of a region with a smaller number is not taken for that of a function. -/
def regionLimit : Nat := twoPow 31 - 1

theorem toNat_regionAddress (small : num < regionLimit) :
    (regionAddress num).toNat = (num + 1) * 2 ^ 32 := by
  have limit : regionLimit = 2147483647 := rfl
  simp only [regionAddress, Nat.toUInt64, UInt64.toNat_shiftLeft, UInt64.toNat_ofNat']
  rw [Nat.mod_eq_of_lt (show num + 1 < 2 ^ 64 by omega), Nat.shiftLeft_eq]
  exact Nat.mod_eq_of_lt (by simp; omega)

theorem regionAddress_ne_zero (small : num < regionLimit) : regionAddress num ≠ 0 := by
  intro zero
  have val := toNat_regionAddress small
  rw [zero, show (0 : UInt64).toNat = 0 from rfl] at val
  omega

theorem and_functionTag_eq_zero : addr &&& functionTag = 0 ↔ addr.toNat < 2 ^ 63 := by
  rw [← UInt64.toNat_inj, UInt64.toNat_and, show functionTag.toNat = 2 ^ 63 from rfl, Nat.and_two_pow,
    Nat.testBit_eq_decide_div_mod_eq, show (0 : UInt64).toNat = 0 from rfl]
  have := UInt64.toNat_lt addr
  by_cases high : addr.toNat / 2 ^ 63 % 2 = 1
  · simp only [high, decide_true, Bool.toNat_true]
    omega
  · simp only [high, decide_false, Bool.toNat_false]
    omega

theorem split_ok :
    split addr = .ok (num, off) ↔
      num < regionLimit ∧ off < 2 ^ 32 ∧ addr.toNat = (num + 1) * 2 ^ 32 + off := by
  have limit : regionLimit = 2147483647 := rfl
  have high : (addr >>> 32).toNat = addr.toNat / 2 ^ 32 := by
    rw [UInt64.toNat_shiftRight, show (32 : UInt64).toNat % 64 = 32 from rfl, Nat.shiftRight_eq_div_pow]
  have low : (addr &&& 0xFFFFFFFF).toNat = addr.toNat % 2 ^ 32 := by
    rw [UInt64.toNat_and, show (0xFFFFFFFF : UInt64).toNat = 2 ^ 32 - 1 from rfl, Nat.and_two_pow_sub_one_eq_mod]
  unfold split
  by_cases tag : addr &&& functionTag = 0
  · have small := and_functionTag_eq_zero.mp tag
    rw [if_neg (by simpa using tag), high]
    cases upper : addr.toNat / 2 ^ 32 with
    | zero =>
      simp only [Success.throw_ok, false_iff]
      omega
    | succ found =>
      simp only [Success.pure_ok, Prod.mk.injEq]
      omega
  · have large : ¬ addr.toNat < 2 ^ 63 := fun small => tag (and_functionTag_eq_zero.mpr small)
    rw [if_pos (by simpa using tag)]
    simp only [Success.throw_ok, false_iff]
    omega

theorem split_regionAddress (small : num < regionLimit) :
    split (regionAddress num) = .ok (num, 0) :=
  split_ok.mpr ⟨small, Nat.two_pow_pos 32, (toNat_regionAddress small).trans (Nat.add_zero _).symm⟩

namespace Memory

variable {memory : Memory}

theorem release_regionAddress (small : num < regionLimit)
    (live : (memory.regions.get? num).isSome) :
    memory.release (regionAddress num) = .ok { memory with regions := memory.regions.erase num } :=
      by
  simp [release, regionAddress_ne_zero small, split_regionAddress small, live, bind, Except.bind, pure, Except.pure]

theorem releaseAll_regionAddress {numbers : List Nat} (distinct : numbers.Nodup)
    (live : ∀ num ∈ numbers, num < regionLimit ∧ (memory.regions.get? num).isSome) :
    ∃ memory', memory.releaseAll (numbers.map regionAddress) = .ok memory' ∧
      memory'.count = memory.count ∧
      ∀ k, memory'.regions.get? k = if k ∈ numbers then none else memory.regions.get? k := by
  induction numbers generalizing memory with
  | nil => exact ⟨memory, rfl, rfl, by simp⟩
  | cons num rest ih =>
    obtain ⟨fresh, distinct⟩ := nodup_cons.mp distinct
    obtain ⟨⟨small, there⟩, live⟩ := forall_mem_cons.mp live
    have others : ∀ other ∈ rest, other < regionLimit ∧ ((memory.regions.erase num).get? other).isSome := by
      intro other mem
      obtain ⟨below, there⟩ := live other mem
      have ne : other ≠ num := by
        rintro rfl
        exact fresh mem
      rw [Sparse.get?_erase, if_neg ne]
      exact ⟨below, there⟩
    obtain ⟨memory', released, count, regions⟩ :=
      @ih { memory with regions := memory.regions.erase num } distinct others
    refine ⟨memory', ?_, count, fun k => ?_⟩
    · rw [map_cons, releaseAll, release_regionAddress small there]
      exact released
    · rw [regions]
      simp only [mem_cons]
      split <;> split <;> simp_all

theorem region_regionAddress (small : num < regionLimit) {region : Region}
    (there : memory.regions.get? num = some region) :
    memory.region (regionAddress num) = .ok (num, region, 0) := by
  simp [Memory.region, split_regionAddress small, there, bind, Except.bind, pure, Except.pure]

end Memory

namespace Region

variable (region : Region)

theorem byte_insert (off k : Nat) (byte : UInt8) :
    Region.byte { region with bytes := region.bytes.insert off byte } k =
      if k = off then byte else region.byte k := by
  simp only [Region.byte, Sparse.get?_insert]
  split <;> rfl

theorem size_write (off : Nat) (bytes : List UInt8) :
    (region.write off bytes).size = region.size := by
  induction bytes generalizing region off with
  | nil => rfl
  | cons byte rest ih => exact ih _ _

theorem byte_write (off : Nat) (bytes : List UInt8) (k : Nat) :
    (region.write off bytes).byte k =
      if k < off then region.byte k else (bytes[k - off]?).getD (region.byte k) := by
  induction bytes generalizing region off with
  | nil => simp [write]
  | cons byte rest ih =>
    rw [write, ih, byte_insert]
    rcases Nat.lt_trichotomy k off with less | same | more
    · rw [if_pos (by omega), if_pos less, if_neg (by omega)]
    · subst same
      simp
    · rw [if_neg (by omega), if_neg (by omega), if_neg (by omega),
        show k - off = (k - (off + 1)) + 1 by omega, getElem?_cons_succ]

theorem read_write (off : Nat) (bytes : List UInt8) :
    (region.write off bytes).read off bytes.length = bytes := by
  apply ext_getElem?
  intro i
  rw [read]
  by_cases small : i < bytes.length
  · simp [byte_write, small]
  · simp [small]

end Region

theorem ofBytes_digits (count val : Nat) :
    Word.ofBytes ((range count).map fun i => (val / twoPow (8 * i) % 256).toUInt8) =
      val % twoPow (8 * count) := by
  induction count generalizing val with
  | zero => simp [Word.ofBytes, Nat.mod_one]
  | succ count ih =>
    have tail : ∀ i, val / twoPow (8 * (i + 1)) % 256 = val / 256 / twoPow (8 * i) % 256 := by
      intro i
      rw [Nat.div_div_eq_div_mul, show 256 * twoPow (8 * i) = twoPow (8 * (i + 1)) by
        exact (Nat.mul_comm _ _).trans (Nat.pow_add 2 (8 * i) 8).symm]
    have head : ((val / twoPow (8 * 0) % 256).toUInt8.toNat) = val % 256 := by
      simp [Nat.toUInt8]
    rw [range_succ_eq_map, map_cons, map_map, Word.ofBytes, head]
    simp only [Function.comp_def, Nat.succ_eq_add_one, tail]
    rw [ih, show twoPow (8 * (count + 1)) = 256 * twoPow (8 * count) by
      exact (Nat.pow_add 2 (8 * count) 8).trans (Nat.mul_comm _ _), Nat.mod_mul]

def intSize (bits : Nat) : Nat := Ir.powerAbove ((bits + 7) / 8)

def HoldsInt (memory : Memory) (num bits : Nat) (word : UInt64) : Prop :=
  ∃ region, memory.regions.get? num = some region ∧ region.size = intSize bits ∧
    region.read 0 (intSize bits) = Word.bytes word (intSize bits)

variable {memory : Memory} {num bits : Nat} {word : UInt64}

/-- An integer is stored in as many bytes as its bits need. -/
theorem word_of_bytes (cut : Word.truncate word bits = word) :
    (Word.ofBytes (Word.bytes word (intSize bits))).toUInt64 = word := by
  have wide : bits ≤ 8 * intSize bits := by
    unfold intSize Ir.powerAbove
    split
    · omega
    · have : (bits + 7) / 8 - 1 < twoPow (((bits + 7) / 8 - 1).log2 + 1) := Nat.lt_log2_self
      omega
  have less : word.toNat < twoPow bits := by
    unfold Word.truncate at cut
    split at cut
    · exact Nat.lt_of_lt_of_le word.toNat_lt (Nat.pow_le_pow_right (by decide) ‹_›)
    · have same : word.toNat % twoPow bits % 2 ^ 64 = word.toNat := congrArg UInt64.toNat cut
      exact Nat.lt_of_le_of_lt (same ▸ Nat.mod_le ..) (Nat.mod_lt _ (twoPow_pos _))
  have fits : twoPow bits ≤ twoPow (8 * intSize bits) := Nat.pow_le_pow_right (by decide) wide
  rw [Word.bytes, ofBytes_digits, Nat.mod_eq_of_lt (Nat.lt_of_lt_of_le less fits)]
  exact UInt64.ofNat_toNat

theorem readShape_int (small : num < regionLimit) (holds : HoldsInt memory num bits word)
    (cut : Word.truncate word bits = word) :
    readShape memory (.int bits) (regionAddress num) = .ok (.int word) := by
  obtain ⟨region, there, size, bytes⟩ := holds
  have read : memory.read (regionAddress num) (intSize bits) = .ok (Word.bytes word (intSize bits)) := by
    simp [Memory.read, Memory.region_regionAddress small there, bind, Except.bind, pure, Except.pure, size, bytes]
  have size : sizeOfShape (.int bits) = .ok (intSize bits) := rfl
  simp only [readShape, size, read, bind, Except.bind, pure, Except.pure, word_of_bytes cut, cut]

theorem writeShape_int (small : num < regionLimit) {region : Region}
    (there : memory.regions.get? num = some region) (size : region.size = intSize bits)
    (word : UInt64) :
    ∃ region', writeShape (.int bits) (.int word) (regionAddress num) memory =
        .ok { memory with regions := memory.regions.insert num region' } ∧
      region'.size = intSize bits ∧
      region'.read 0 (intSize bits) = Word.bytes word (intSize bits) := by
  have length : (Word.bytes word (intSize bits)).length = intSize bits := by simp [Word.bytes]
  refine ⟨region.write 0 (Word.bytes word (intSize bits)), ?_, (Region.size_write ..).trans size, ?_⟩
  · have known : sizeOfShape (.int bits) = .ok (intSize bits) := rfl
    simp [writeShape, known, Slot.word, Memory.write, Memory.region_regionAddress small there, bind, Except.bind,
      pure, Except.pure, length, size]
  · have back := region.read_write 0 (Word.bytes word (intSize bits))
    rwa [length] at back

end TernLang.Machine
