import TernLang.Lowering.Expr
import TernLang.Machine.Storage
import TernLang.Proofs.Core.Semantics
import TernLang.Proofs.Machine.Arithmetic

/-! Values of the core as machine words. A word holds the residue of its value modulo the width
of the type, and the machine's operations act on residues as the core's act on values. -/
namespace TernLang
open IrType

namespace Core

open Word (residue)

variable (scalar : Scalar)

namespace Scalar

def typeClass : TypeClass := .ofPrimitive scalar.primitive

theorem bits_le : scalar.bits ≤ 64 := by
  rcases scalar with _ | kind | _
  · decide
  · cases kind <;> decide
  · decide

@[simp] theorem irType_typeClass : scalar.typeClass.irType = .int scalar.bits := by
  cases scalar <;> rfl

theorem typeClass_integer {scalar : Scalar} (integer : scalar ≠ bool) :
    scalar.typeClass = .integer scalar.bits scalar.isSigned := by
  cases scalar with
  | bool => contradiction
  | integer | usize => rfl

variable {scalar : Scalar} {val x y : Int}

/-! Values of the type as numbers of so many bits. -/

theorem toInt_ofInt (fits : scalar.wrap val = val) (signed : scalar.isSigned) :
    (BitVec.ofInt scalar.bits val).toInt = val := by
  simp only [wrap, signed, true_and] at fits
  rw [Word.toInt_ofInt scalar.bits_pos]
  exact fits

theorem toNat_ofInt (fits : scalar.wrap val = val) (unsigned : scalar.isSigned = false) :
    ((BitVec.ofInt scalar.bits val).toNat : Int) = val := by
  simp only [wrap, unsigned, Bool.false_eq_true, false_and, if_false] at fits
  rw [Word.toNat_ofInt, fits]

section
variable (left : scalar.wrap x = x) (right : scalar.wrap y = y)
include left right

theorem ofInt_inj : BitVec.ofInt scalar.bits x = BitVec.ofInt scalar.bits y ↔ x = y := by
  refine ⟨fun equal => ?_, congrArg _⟩
  cases signed : scalar.isSigned with
  | true => rw [← toInt_ofInt left signed, equal, toInt_ofInt right signed]
  | false => rw [← toNat_ofInt left signed, equal, toNat_ofInt right signed]

variable (unsigned : scalar.isSigned = false)
include unsigned

theorem ofInt_udiv :
    BitVec.ofInt scalar.bits x / BitVec.ofInt scalar.bits y = BitVec.ofInt scalar.bits (x.tdiv y) :=
      by
  have quotient : x.tdiv y = (BitVec.ofInt scalar.bits x / BitVec.ofInt scalar.bits y).toNat := by
    rw [BitVec.toNat_udiv, Int.natCast_ediv, ← Int.tdiv_eq_ediv_of_nonneg (Int.natCast_nonneg _),
      toNat_ofInt left unsigned, toNat_ofInt right unsigned]
  rw [quotient, BitVec.ofInt_natCast, BitVec.ofNat_toNat, BitVec.setWidth_eq]

theorem ofInt_umod :
    BitVec.ofInt scalar.bits x % BitVec.ofInt scalar.bits y = BitVec.ofInt scalar.bits (x.tmod y) :=
      by
  have remainder : x.tmod y = (BitVec.ofInt scalar.bits x % BitVec.ofInt scalar.bits y).toNat := by
    rw [BitVec.toNat_umod, Int.natCast_emod, ← Int.tmod_eq_emod_of_nonneg (Int.natCast_nonneg _),
      toNat_ofInt left unsigned, toNat_ofInt right unsigned]
  rw [remainder, BitVec.ofInt_natCast, BitVec.ofNat_toNat, BitVec.setWidth_eq]

end

end Scalar

variable {datum : Datum} {instr : Ir.BinaryInst} {op : BinaryOp}

namespace Datum

def word (datum : Datum) : UInt64 := residue datum.scalar.bits datum.value

def slot (datum : Datum) : Machine.Slot := .int datum.word

theorem word_of (val : Int) : (of scalar val).word = residue scalar.bits val :=
  congrArg (fun low : Int => low.toNat.toUInt64) (scalar.wrap_emod val)

theorem word_ofBool (val : Bool) : (ofBool val).word = if val then 1 else 0 := by
  cases val <;> decide

theorem slot_of (val : Int) :
    (of scalar val).slot = .int (Word.ofBits (.ofInt scalar.bits val)) := by
  rw [slot, word_of, Word.residue_eq scalar.bits_le]

theorem low_word (datum : Datum) :
    Word.low datum.scalar.bits datum.word = .ofInt _ datum.value := by
  rw [word, Word.residue_eq datum.scalar.bits_le, Word.low_ofBits datum.scalar.bits_le]

theorem truncate_word (datum : Datum) :
    Word.truncate datum.word datum.scalar.bits = datum.word := by
  rw [Word.truncate_eq datum.scalar.bits_le, low_word, word, Word.residue_eq datum.scalar.bits_le]

theorem ofInt_eq_zero (datum : Datum) :
    BitVec.ofInt datum.scalar.bits datum.value = 0 ↔ datum.value = 0 := by
  have zero : datum.scalar.wrap 0 = 0 := by
    have := twoPow_pos (datum.scalar.bits - 1)
    simp only [Scalar.wrap, Int.zero_emod]
    exact if_neg fun large => by omega
  exact Scalar.ofInt_inj datum.fits zero

end Datum

open Lowering (arithmetic? comparison? logical? Conversion conversion? extension)

variable {a b : Datum}

section
variable (same : a.scalar = b.scalar)
include same

theorem binary_ofInt (known : Ir.BinaryInst.onBits? instr = some compute)
    (res : compute (.ofInt _ a.value) (.ofInt _ b.value) = BitVec.ofInt a.scalar.bits val) :
    Machine.binary instr (.int a.scalar.bits) a.slot b.slot =
      if instr.divides ∧
        b.value = 0 then .error .divisionByZero else .ok (Datum.of a.scalar val).slot := by
  have low := b.low_word
  have zero := b.ofInt_eq_zero
  rw [← same] at low zero
  rw [Machine.binary_onBits a.scalar.bits_pos a.scalar.bits_le rfl rfl known, a.low_word, low, res, Datum.slot_of]
  simp only [zero]

/-- The instruction of an operation computes in so many bits what the operation does with values. -/
theorem arithmetic_ofInt (known : arithmetic? a.scalar.typeClass op = some instr) :
    ∃ compute val, Ir.BinaryInst.onBits? instr = some compute ∧
      compute (.ofInt _ a.value) (.ofInt _ b.value) = BitVec.ofInt a.scalar.bits val ∧
      binary op a b = if instr.divides ∧
        b.value = 0 then .error .divisionByZero else .ok (.of a.scalar val) := by
  have integer : a.scalar ≠ .bool := by
    intro bool
    rw [bool] at known
    contradiction
  have right := b.fits
  rw [← same] at right
  rw [Scalar.typeClass_integer integer] at known
  cases op <;> cases signed : a.scalar.isSigned <;> rw [signed] at known <;> cases known
  case add.false | add.true => exact ⟨_, _, rfl, (BitVec.ofInt_add ..).symm, rfl⟩
  case subtract.false | subtract.true =>
    exact ⟨_, _, rfl, by rw [Int.sub_eq_add_neg, BitVec.ofInt_add, BitVec.ofInt_neg, BitVec.sub_eq_add_neg], rfl⟩
  case multiply.false | multiply.true => exact ⟨_, _, rfl, (BitVec.ofInt_mul ..).symm, rfl⟩
  case divide.true =>
    refine ⟨_, _, rfl, ?_, by simp [Ir.BinaryInst.divides, binary]; rfl⟩
    rw [← Word.ofInt_tdiv, Scalar.toInt_ofInt a.fits signed, Scalar.toInt_ofInt right signed]
  case modulus.true =>
    refine ⟨_, _, rfl, ?_, by simp [Ir.BinaryInst.divides, binary]; rfl⟩
    rw [← Word.ofInt_tmod, Scalar.toInt_ofInt a.fits signed, Scalar.toInt_ofInt right signed]
  case divide.false =>
    exact ⟨_, _, rfl, Scalar.ofInt_udiv a.fits right signed, by simp [Ir.BinaryInst.divides, binary]; rfl⟩
  case modulus.false =>
    exact ⟨_, _, rfl, Scalar.ofInt_umod a.fits right signed, by simp [Ir.BinaryInst.divides, binary]; rfl⟩

theorem arithmetic_residue (known : arithmetic? a.scalar.typeClass op = some instr) :
    (∃ datum, binary op a b = .ok datum ∧ datum.scalar = a.scalar ∧
      Machine.binary instr (.int a.scalar.bits) a.slot b.slot = .ok datum.slot) ∨
    (binary op a b = .error .divisionByZero ∧
      Machine.binary instr (.int a.scalar.bits) a.slot b.slot = .error .divisionByZero) := by
  obtain ⟨compute, val, onBits, res, means⟩ := arithmetic_ofInt same known
  rw [means, binary_ofInt same onBits res]
  by_cases zero : instr.divides ∧ b.value = 0
  · exact .inr ⟨if_pos zero, if_pos zero⟩
  · exact .inl ⟨_, if_neg zero, rfl, if_neg zero⟩

theorem comparison_ofInt (known : comparison? a.scalar.typeClass op = some predicate) :
    ∃ order outcome, predicate.onBits? = some order ∧
      order (.ofInt _ a.value) (.ofInt a.scalar.bits b.value) = outcome ∧
        binary op a b = .ok (.ofBool outcome) := by
  have known : comparison? (.integer a.scalar.bits a.scalar.isSigned) op = some predicate := by
    by_cases bool : a.scalar = .bool
    · rw [bool] at known ⊢
      cases op <;> cases known <;> rfl
    · rwa [Scalar.typeClass_integer bool] at known
  have right := b.fits
  rw [← same] at right
  have equal : (BitVec.ofInt a.scalar.bits a.value == .ofInt a.scalar.bits b.value) = decide (a.value = b.value) := by
    rw [Bool.eq_iff_iff, beq_iff_eq, decide_eq_true_iff, Scalar.ofInt_inj a.fits right]
  cases op <;> cases signed : a.scalar.isSigned <;> rw [signed] at known <;> cases known
  case equal.false | equal.true => exact ⟨_, _, rfl, equal, rfl⟩
  case notEqual.false | notEqual.true =>
    exact ⟨_, _, rfl, (congrArg Bool.not equal).trans (decide_not ..).symm, rfl⟩
  case less.true | lessEqual.true | greater.true | greaterEqual.true =>
    refine ⟨_, _, rfl, decide_eq_decide.mpr ?_, rfl⟩
    rw [Scalar.toInt_ofInt a.fits signed, Scalar.toInt_ofInt right signed]
  all_goals
    refine ⟨_, _, rfl, decide_eq_decide.mpr ?_, rfl⟩
    have := Scalar.toNat_ofInt a.fits signed
    have := Scalar.toNat_ofInt right signed
    omega

theorem comparison_residue (known : comparison? a.scalar.typeClass op = some predicate) :
    ∃ outcome, binary op a b = .ok (.ofBool outcome) ∧
      Machine.compare predicate (.int a.scalar.bits) a.slot b.slot = .ok outcome := by
  obtain ⟨order, outcome, onBits, res, means⟩ := comparison_ofInt same known
  have low := b.low_word
  rw [← same] at low
  refine ⟨_, means, ?_⟩
  rw [Machine.compare_onBits a.scalar.bits_pos a.scalar.bits_le rfl rfl onBits, a.low_word, low, res]

end

theorem compare_zero (datum : Datum) :
    Machine.compare .ne (.int datum.scalar.bits) datum.slot (.int 0) = .ok datum.isTrue := by
  rw [Machine.compare_onBits datum.scalar.bits_pos datum.scalar.bits_le rfl rfl rfl, datum.low_word]
  refine congrArg Except.ok (Bool.eq_iff_iff.mpr ?_)
  rw [bne_iff_ne, Datum.isTrue, bne_iff_ne]
  rw [ne_eq, Word.low_zero, datum.ofInt_eq_zero]

theorem logical_residue (known : logical? op = some instr) (left right : Datum) :
    ∃ outcome, binary op left right = .ok (.ofBool outcome) ∧
      Machine.binary instr .bool (Datum.ofBool left.isTrue).slot (Datum.ofBool right.isTrue).slot =
        .ok (Datum.ofBool outcome).slot := by
  cases op <;> simp only [logical?, Option.some.injEq, reduceCtorEq] at known
  all_goals
    subst known
    refine ⟨_, rfl, ?_⟩
    cases left.isTrue <;> cases right.isTrue <;> rfl

theorem not_residue (outcome : Bool) :
    Machine.binary .xor .bool (Datum.ofBool outcome).slot (.int 1) =
      .ok (Datum.ofBool (! outcome)).slot := by
  cases outcome <;> rfl

theorem cast_ofInt {op : Ir.CastOp} {tgt : Scalar}
    {convert : BitVec datum.scalar.bits → BitVec tgt.bits} (known : op.onBits? = some convert)
    (res : convert (.ofInt _ datum.value) = .ofInt _ datum.value) :
    Machine.cast op (.int datum.scalar.bits) datum.slot (.int tgt.bits) =
      .ok (Datum.of tgt datum.value).slot := by
  rw [Machine.cast_onBits datum.scalar.bits_pos datum.scalar.bits_le tgt.bits_le rfl known, datum.low_word, res,
    Datum.slot_of]

theorem cast_unsigned (unsigned : datum.scalar.isSigned = false) (tgt : Scalar) :
    Machine.cast .zext (.int datum.scalar.bits) datum.slot (.int tgt.bits) =
      .ok (Datum.of tgt datum.value).slot := by
  refine cast_ofInt rfl ?_
  rw [← BitVec.ofNat_toNat, ← BitVec.ofInt_natCast, Scalar.toNat_ofInt datum.fits unsigned]

theorem word_ofBool_isTrue (bool : datum.scalar = .bool) :
    (Datum.ofBool datum.isTrue).word = datum.word := by
  have fits := datum.fits
  rw [bool] at fits
  have bit : datum.value = 0 ∨ datum.value = 1 := by
    simp only [Scalar.wrap, Scalar.isSigned, Scalar.bits, Bool.false_eq_true, false_and, if_false] at fits
    rw [show (twoPow 1 : Int) = 2 from rfl] at fits
    omega
  rw [Datum.word_ofBool, Datum.word, bool, Datum.isTrue]
  rcases bit with zero | one
  · rw [zero]
    rfl
  · rw [one]
    rfl

theorem conversion_residue (datum : Datum)
    (known : conversion? datum.scalar.typeClass tgt.typeClass = some conv) :
    (conv = .keep ∧ (datum.cast tgt).word = datum.word ∧ tgt.bits = datum.scalar.bits) ∨
    (∃ op, conv = .cast op ∧
      Machine.cast op (.int datum.scalar.bits) datum.slot (.int tgt.bits) =
        .ok (datum.cast tgt).slot) ∨
    (conv = .test .ne ∧ tgt = .bool) := by
  by_cases truth : tgt = .bool
  · subst truth
    by_cases bool : datum.scalar = .bool
    · rw [bool] at known
      cases known
      exact .inl ⟨rfl, word_ofBool_isTrue bool, by rw [bool]⟩
    · rw [Scalar.typeClass_integer bool] at known
      cases known
      exact .inr (.inr ⟨rfl, rfl⟩)
  · have cast : datum.cast tgt = .of tgt datum.value := by
      cases tgt with
      | bool => contradiction
      | integer | usize => rfl
    rw [Scalar.typeClass_integer truth] at known
    by_cases bool : datum.scalar = .bool
    · have unsigned : datum.scalar.isSigned = false := by rw [bool]; rfl
      have wide := cast_unsigned unsigned tgt
      rw [bool] at known
      cases known
      exact .inr (.inl ⟨.zext, rfl, cast ▸ wide⟩)
    · rw [Scalar.typeClass_integer bool] at known
      simp only [conversion?] at known
      split at known
      · next equal =>
        cases known
        refine .inl ⟨rfl, ?_, equal.symm⟩
        rw [cast, Datum.word_of, Datum.word, equal]
      · split at known
        · next narrow =>
          cases known
          exact .inr (.inl ⟨.trunc, rfl, cast ▸ cast_ofInt rfl (Word.setWidth_ofInt (Nat.le_of_lt narrow) _)⟩)
        · cases known
          refine .inr (.inl ⟨_, rfl, ?_⟩)
          rw [cast]
          cases signed : datum.scalar.isSigned with
          | true => exact cast_ofInt rfl (congrArg (BitVec.ofInt _) (Scalar.toInt_ofInt datum.fits signed))
          | false => exact cast_unsigned signed tgt

end Core
end TernLang
