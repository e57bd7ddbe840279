import Mathlib.Data.Int.ModEq
import TernLang.Machine.Arithmetic
import TernLang.Proofs.Success

/-! Integer arithmetic at a width. Words are 64 bits wide, and what an operation computes depends on
the low bits of its operands alone. -/
namespace TernLang

namespace Word

variable {bits : Nat}

def low (bits : Nat) (word : UInt64) : BitVec bits := word.toBitVec.setWidth bits

def ofBits (num : BitVec bits) : UInt64 := ⟨num.setWidth 64⟩

/-- The word of so many bits that an integer is congruent to. -/
def residue (bits : Nat) (val : Int) : UInt64 := (val % twoPow bits).toNat.toUInt64

theorem toNat_low (word : UInt64) : (low bits word).toNat = word.toNat % twoPow bits :=
  BitVec.toNat_setWidth ..

theorem low_zero : low bits 0 = 0 := BitVec.setWidth_zero ..

theorem twoPow_le (le : m ≤ n) : twoPow m ≤ twoPow n := Nat.pow_le_pow_right (by decide) le

theorem twoPow_pred (pos : 0 < bits) : twoPow bits = twoPow (bits - 1) * 2 := by
  rw [← twoPow_succ, Nat.sub_add_cancel pos]

theorem toNat_ofInt (val : Int) : ((BitVec.ofInt bits val).toNat : Int) = val % twoPow bits := by
  rw [BitVec.toNat_ofInt]
  exact Int.toNat_of_nonneg (Int.emod_nonneg _ (by exact_mod_cast (twoPow_pos bits).ne'))

theorem toInt_ofInt (pos : 0 < bits) (val : Int) : (BitVec.ofInt bits val).toInt =
    if twoPow (bits - 1) ≤
      val % twoPow bits then val % twoPow bits - twoPow bits else val % twoPow bits := by
  have low := @toNat_ofInt bits val
  have half := twoPow_pred pos
  rw [BitVec.toInt_eq_toNat_cond, show 2 ^ bits = twoPow bits from rfl]
  split <;> split <;> omega

theorem setWidth_ofInt {narrow wide : Nat} (le : narrow ≤ wide) (val : Int) :
    (BitVec.ofInt wide val).setWidth narrow = BitVec.ofInt narrow val := by
  have divides : (twoPow narrow : Int) ∣ twoPow wide := by exact_mod_cast Nat.pow_dvd_pow 2 le
  apply BitVec.eq_of_toNat_eq
  apply Int.natCast_inj.mp
  rw [BitVec.toNat_setWidth, Int.natCast_emod, toNat_ofInt, toNat_ofInt]
  exact Int.emod_emod_of_dvd val divides

section
variable (small : bits ≤ 64)
include small

theorem toNat_ofBits (num : BitVec bits) : (ofBits num).toNat = num.toNat :=
  (BitVec.toNat_setWidth ..).trans (Nat.mod_eq_of_lt (Nat.lt_of_lt_of_le num.isLt (twoPow_le small)))

theorem ofBits_beq (a b : BitVec bits) : (ofBits a == ofBits b) = (a == b) := by
  rw [Bool.eq_iff_iff, beq_iff_eq, beq_iff_eq, ← UInt64.toNat_inj, ← BitVec.toNat_inj, toNat_ofBits small,
    toNat_ofBits small]

theorem ofBits_lt {a b : BitVec bits} : ofBits a < ofBits b ↔ a.toNat < b.toNat := by
  rw [UInt64.lt_iff_toNat_lt, toNat_ofBits small, toNat_ofBits small]

theorem ofBits_le {a b : BitVec bits} : ofBits a ≤ ofBits b ↔ a.toNat ≤ b.toNat := by
  rw [UInt64.le_iff_toNat_le, toNat_ofBits small, toNat_ofBits small]

theorem low_ofBits (num : BitVec bits) : low bits (ofBits num) = num := by
  apply BitVec.eq_of_toNat_eq
  rw [toNat_low, toNat_ofBits small]
  exact Nat.mod_eq_of_lt num.isLt

theorem truncate_eq (word : UInt64) : truncate word bits = ofBits (low bits word) := by
  have lt := word.toNat_lt
  apply UInt64.toNat_inj.mp
  rw [toNat_ofBits small, toNat_low, truncate]
  split
  · next full =>
    obtain rfl : bits = 64 := by omega
    exact (Nat.mod_eq_of_lt lt).symm
  · exact Nat.mod_eq_of_lt (Nat.lt_of_le_of_lt (Nat.mod_le _ _) lt)

theorem residue_eq (val : Int) : residue bits val = ofBits (BitVec.ofInt bits val) := by
  have lt := Nat.lt_of_lt_of_le (BitVec.ofInt bits val).isLt (twoPow_le small)
  apply UInt64.toNat_inj.mp
  rw [toNat_ofBits small]
  rw [BitVec.toNat_ofInt] at lt ⊢
  exact Nat.mod_eq_of_lt lt

theorem toNat_residue (val : Int) : ((residue bits val).toNat : Int) = val % twoPow bits := by
  rw [residue_eq small, toNat_ofBits small, toNat_ofInt]

theorem low_ofInt (val : Int) : low bits (ofInt val) = BitVec.ofInt bits val := by
  rw [show ofInt val = residue 64 val from rfl, residue_eq (Nat.le_refl 64), ← setWidth_ofInt small]
  exact BitVec.setWidth_setWidth_of_le _ small

theorem signed_eq (pos : 0 < bits) (word : UInt64) : signed word bits = (low bits word).toInt := by
  have width : (if bits = 0 ∨ bits ≥ 64 then 64 else bits) = bits := by split <;> omega
  have half := twoPow_pred pos
  simp only [signed, width]
  rw [BitVec.toInt_eq_toNat_cond, toNat_low, show 2 ^ bits = twoPow bits from rfl]
  push_cast
  split <;> split <;> omega

theorem low_add (a b : UInt64) : low bits (a + b) = low bits a + low bits b :=
  BitVec.setWidth_add _ _ small

theorem low_mul (a b : UInt64) : low bits (a * b) = low bits a * low bits b :=
  BitVec.setWidth_mul _ _ small

theorem low_sub (a b : UInt64) : low bits (a - b) = low bits a - low bits b := by
  rw [BitVec.eq_sub_iff_add_eq, ← low_add small, UInt64.sub_add_cancel]

theorem low_div (a b : UInt64) :
    low bits (ofBits (low bits a) / ofBits (low bits b)) = low bits a / low bits b := by
  apply BitVec.eq_of_toNat_eq
  rw [toNat_low, UInt64.toNat_div, toNat_ofBits small, toNat_ofBits small, BitVec.toNat_udiv]
  exact Nat.mod_eq_of_lt (low bits a / low bits b).isLt

theorem low_mod (a b : UInt64) :
    low bits (ofBits (low bits a) % ofBits (low bits b)) = low bits a % low bits b := by
  apply BitVec.eq_of_toNat_eq
  rw [toNat_low, UInt64.toNat_mod, toNat_ofBits small, toNat_ofBits small, BitVec.toNat_umod]
  exact Nat.mod_eq_of_lt (low bits a % low bits b).isLt

theorem truncate_ofInt (val : Int) : truncate (ofInt val) bits = residue bits val := by
  rw [truncate_eq small, low_ofInt small, residue_eq small]

end

/-- Truncation masks the low bits. -/
theorem truncate_mask (narrow : bits < 64) (word : UInt64) :
    truncate word bits = ⟨word.toBitVec &&& (1#64 <<< bits - 1#64)⟩ := by
  have power : (1#64 <<< bits).toNat = 2 ^ bits := by
    rw [BitVec.toNat_shiftLeft, Nat.shiftLeft_eq, BitVec.toNat_one (by decide), Nat.one_mul]
    exact Nat.mod_eq_of_lt (Nat.pow_lt_pow_right (by decide) narrow)
  have mask : (1#64 <<< bits - 1#64).toNat = 2 ^ bits - 1 := by
    rw [BitVec.toNat_sub_of_le (BitVec.le_def.mpr (power ▸ Nat.two_pow_pos bits)), power]
    rfl
  rw [truncate_eq narrow.le]
  apply UInt64.toNat_inj.mp
  rw [toNat_ofBits narrow.le, toNat_low]
  change _ = (word.toBitVec &&& (1#64 <<< bits - 1#64)).toNat
  rw [BitVec.toNat_and, mask, Nat.and_two_pow_sub_one_eq_mod]
  rfl

/-- A sign is read by a shift up and an arithmetic shift down. -/
theorem signed_shift (pos : 0 < bits) (narrow : bits < 64) (word : UInt64) :
    signed word bits = ((word.toBitVec <<< (64 - bits)).sshiftRight (64 - bits)).toInt := by
  have same : (word.toBitVec <<< (64 - bits)).sshiftRight (64 - bits) = (low bits word).signExtend 64 := by
    ext i lt
    rw [BitVec.getElem_sshiftRight, BitVec.getElem_signExtend]
    simp [low, BitVec.msb_eq_getLsbD_last]
    grind
  rw [signed_eq narrow.le pos, same, BitVec.toInt_signExtend_of_le narrow.le]
theorem ofInt_tdiv (a b : BitVec bits) : BitVec.ofInt bits (a.toInt.tdiv b.toInt) = a.sdiv b := by
  apply BitVec.eq_of_toInt_eq
  rw [BitVec.toInt_ofInt, BitVec.toInt_sdiv]

theorem ofInt_tmod (a b : BitVec bits) : BitVec.ofInt bits (a.toInt.tmod b.toInt) = a.srem b := by
  rw [← BitVec.toInt_srem, BitVec.ofInt_toInt]

end Word

namespace Ir

/-- Operations on numbers of so many bits: modular, bitwise, and quotients and remainders of signed
and of unsigned numbers. -/
def BinaryInst.onBits? : BinaryInst → Option (BitVec bits → BitVec bits → BitVec bits)
  | add => some (· + ·)
  | sub => some (· - ·)
  | mul => some (· * ·)
  | sdiv => some .sdiv
  | srem => some .srem
  | udiv => some (· / ·)
  | urem => some (· % ·)
  | and => some (· &&& ·)
  | or => some (· ||| ·)
  | xor => some (· ^^^ ·)
  | _ => none

def BinaryInst.divides : BinaryInst → Bool
  | sdiv | udiv | srem | urem => true
  | _ => false

/-- Orders of signed and of unsigned numbers of so many bits. -/
def Predicate.onBits? : Predicate → Option (BitVec bits → BitVec bits → Bool)
  | eq => some (· == ·)
  | ne => some (· != ·)
  | slt => some BitVec.slt
  | sle => some BitVec.sle
  | sgt => some fun a b => b.slt a
  | sge => some fun a b => b.sle a
  | ult => some BitVec.ult
  | ule => some BitVec.ule
  | ugt => some fun a b => b.ult a
  | uge => some fun a b => b.ule a
  | _ => none

/-- Conversions of numbers to other widths. -/
def CastOp.onBits? : CastOp → Option (BitVec src → BitVec tgt)
  | trunc | zext => some (·.setWidth tgt)
  | sext => some (·.signExtend tgt)
  | _ => none

end Ir

namespace Machine
open Word Ir

variable {bits : Nat} {a b : UInt64} {left right : Slot}

section
variable (pos : 0 < bits) (small : bits ≤ 64)
include pos small

theorem wordBinary_onBits
    (known : op.onBits? = some (compute : BitVec bits → BitVec bits → BitVec bits)) (a b : UInt64) :
    ∃ word, wordBinary op (.int bits) a b =
      (if op.divides ∧ low bits b = 0 then .error .divisionByZero else .ok word) ∧
        low bits word = compute (low bits a) (low bits b) := by
  have zero : Word.truncate b bits = 0 ↔ low bits b = 0 := by
    rw [truncate_eq small, ← UInt64.toNat_inj, toNat_ofBits small, ← BitVec.toNat_inj]
    rfl
  cases op <;> cases known
  case add => exact ⟨_, rfl, low_add small a b⟩
  case sub => exact ⟨_, rfl, low_sub small a b⟩
  case mul => exact ⟨_, rfl, low_mul small a b⟩
  case and => exact ⟨_, rfl, BitVec.setWidth_and⟩
  case or => exact ⟨_, rfl, BitVec.setWidth_or⟩
  case xor => exact ⟨_, rfl, BitVec.setWidth_xor⟩
  all_goals
    simp only [wordBinary, divisionOp?, IrType.width, IrType.intBits?, Option.getD_some, zero,
      BinaryInst.divides, true_and]
  case sdiv => exact ⟨_, rfl, by rw [signed_eq small pos, signed_eq small pos, low_ofInt small, ofInt_tdiv]⟩
  case srem => exact ⟨_, rfl, by rw [signed_eq small pos, signed_eq small pos, low_ofInt small, ofInt_tmod]⟩
  case udiv => exact ⟨_, rfl, by rw [truncate_eq small, truncate_eq small, low_div small]⟩
  case urem => exact ⟨_, rfl, by rw [truncate_eq small, truncate_eq small, low_mod small]⟩

variable (holds : left.word = .ok a) (holds' : right.word = .ok b)
include holds holds'

/-- An operation at a width computes with the low bits. -/
theorem binary_onBits (known : op.onBits? = some compute) :
    binary op (.int bits) left right =
      if op.divides ∧ low bits b = 0 then .error .divisionByZero
      else .ok (.int (ofBits (compute (low bits a) (low bits b)))) := by
  obtain ⟨word, runs, low⟩ := wordBinary_onBits pos small known a b
  simp only [binary, IrType.isFloat, Bool.false_eq_true, if_false, holds, holds', bind, Except.bind, runs]
  split
  · next failed =>
    split at failed
    · cases failed
      rw [if_pos ‹_›]
    · cases failed
  · next done =>
    split at done
    · cases done
    · cases done
      rw [if_neg ‹_›, IrType.width, IrType.intBits?, Option.getD_some, truncate_eq small, low]
      rfl

/-- A comparison at a width orders the low bits. -/
theorem compare_onBits (known : predicate.onBits? = some order) :
    compare predicate (.int bits) left right = .ok (order (low bits a) (low bits b)) := by
  have exact : predicate.isFloat = false := by cases predicate <;> first | rfl | cases known
  simp only [compare, exact, Bool.false_eq_true, if_false, holds, holds', bind, Except.bind, pure, Except.pure,
    IrType.width, IrType.intBits?, Option.getD_some, compareWords, truncate_eq small, signed_eq small pos,
    low_ofBits small]
  cases predicate <;> cases known <;> refine congrArg Except.ok ?_
  case eq => exact ofBits_beq small _ _
  case ne => exact congrArg Bool.not (ofBits_beq small _ _)
  case ult | ugt => exact decide_eq_decide.mpr (ofBits_lt small)
  case ule | uge => exact decide_eq_decide.mpr (ofBits_le small)
  all_goals rfl

end

/-- A conversion gives the low bits at another width. -/
theorem cast_onBits (pos : 0 < src) (wide : src ≤ 64) (small : tgt ≤ 64) (holds : left.word = .ok a)
    (known : op.onBits? = some convert) :
    cast op (.int src) left (.int tgt) = .ok (.int (ofBits (convert (low src a) : BitVec tgt))) :=
      by
  cases op <;> cases known <;>
    simp only [cast, holds, bind, Except.bind, pure, Except.pure, IrType.width, IrType.intBits?, Option.getD_some]
  case trunc | zext =>
    rw [truncate_eq wide, truncate_eq small, show low tgt (ofBits (low src a)) = (low src a).setWidth tgt from
      BitVec.setWidth_setWidth_of_le _ small]
  case sext => rw [signed_eq wide pos, truncate_eq small, low_ofInt small, BitVec.signExtend]

/-- Integer instructions compute with numbers of so many bits. Only a division fails, and only if
the low bits of the divisor are zero; the other bits of the operands do not matter. -/
theorem integers_twosComplement (pos : 0 < bits) (small : bits ≤ 64) (holds : left.word = .ok a)
    (holds' : right.word = .ok b) :
    (∀ op, binary op (.int bits) left right = .error .divisionByZero ↔ op.divides ∧
      low bits b = 0) ∧
    (∀ op compute, op.onBits? = some compute → ¬(op.divides ∧ low bits b = 0) → ∃ word,
      binary op (.int bits) left right = .ok (.int word) ∧
        word.toNat = (compute (low bits a) (low bits b)).toNat) ∧
    (∀ predicate order, predicate.onBits? = some order →
      compare predicate (.int bits) left right = .ok (order (low bits a) (low bits b))) ∧
    ∀ op tgt (convert : BitVec bits → BitVec tgt), tgt ≤ 64 → op.onBits? = some convert → ∃ word,
      cast op (.int bits) left (.int tgt) = .ok (.int word) ∧
        word.toNat = (convert (low bits a)).toNat := by
  refine ⟨fun op => ?_, fun op compute known divides => ⟨_, ?_, toNat_ofBits small _⟩,
    fun predicate order known => compare_onBits pos small holds holds' known,
    fun op tgt convert narrow known => ⟨_, cast_onBits pos small narrow holds known, toNat_ofBits narrow _⟩⟩
  · cases known : @BinaryInst.onBits? bits op with
    | some compute =>
      rw [binary_onBits pos small holds holds' known]
      by_cases zero : op.divides ∧ low bits b = 0
      · rw [if_pos zero, iff_true_right zero]
      · rw [if_neg zero, iff_false_right zero]
        exact nofun
    | none =>
      have floats : op.divides = false ∧ divisionOp? bits op = none ∧ wordOp? op = none := by
        cases op <;> first | exact ⟨rfl, rfl, rfl⟩ | cases known
      simp [binary, wordBinary, IrType.isFloat, IrType.width, IrType.intBits?, holds, holds',
        floats, bind, Except.bind,
        throw, throwThe, MonadExceptOf.throw]
  · rw [binary_onBits pos small holds holds' known, if_neg divides]

/-- The least number of eight bits, divided by minus one. -/
theorem least_byte_wraps : ¬(BinaryInst.divides .sdiv ∧ low 8 0xABFF = 0) ∧
    ∃ word, binary .sdiv (.int 8) (.int 0x7F80) (.int 0xABFF) = .ok (.int word) ∧
      word.toNat = 0x80 := by
  have divides : ¬(BinaryInst.divides .sdiv ∧ low 8 0xABFF = 0) := by decide
  exact ⟨divides, (@integers_twosComplement 8 0x7F80 0xABFF (.int 0x7F80) (.int 0xABFF) (by decide)
    (by decide) rfl rfl).2.1
    .sdiv _ rfl divides⟩

end Machine
end TernLang
