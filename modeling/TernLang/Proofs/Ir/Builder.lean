import Mathlib.Data.List.Basic
import TernLang.Ir.Builder
import TernLang.Proofs.Ir.ControlFlow

/-! Functions under construction. A block grows until it gets its terminator and stays as it is
from then on; registers and labels are never used twice. -/
namespace TernLang.Ir

def labelDigits (label : String) : List Char := label.toList.reverse.takeWhile Char.isDigit

def hints : List String := ["if.true", "if.false", "if.end", "loop.test", "loop.body", "loop.exit"]

def plainLabels : List String := ["entry", "body", "quit"]

theorem labelDigits_numbered (known : hint ∈ hints) (num : Nat) :
    labelDigits (hint ++ toString num) = (Nat.toDigits 10 num).reverse := by
  have digits : ∀ c ∈ (Nat.toDigits 10 num).reverse, c.isDigit = true := fun c mem =>
    Nat.isDigit_of_mem_toDigits (by decide) (by decide) (List.mem_reverse.mp mem)
  have stem : hint.toList.reverse.takeWhile Char.isDigit = [] := by
    revert hint
    decide
  rw [labelDigits, String.toList_append, List.reverse_append,
    show (toString num).toList = Nat.toDigits 10 num from Nat.toList_repr,
    List.takeWhile_append_of_pos digits, stem, List.append_nil]

theorem toDigits_inj {a b : Nat} (same : Nat.toDigits 10 a = Nat.toDigits 10 b) : a = b := by
  rw [← @Nat.ofDigitChars_ten_toDigits a, same, Nat.ofDigitChars_ten_toDigits]

/-- A label that exists once so many numbers are given away. -/
def Numbered (limit : Nat) (label : String) : Prop :=
  label ∈ plainLabels ∨ ∃ hint ∈ hints, ∃ num ≤ limit, label = hint ++ toString num

theorem Numbered.mono (numbered : Numbered limit label) (le : limit ≤ limit') :
    Numbered limit' label := by
  rcases numbered with plain | ⟨hint, known, num, small, same⟩
  · exact .inl plain
  · exact .inr ⟨hint, known, num, Nat.le_trans small le, same⟩

theorem not_numbered_succ (known : hint ∈ hints) (limit : Nat) :
    ¬ Numbered limit (hint ++ toString (limit + 1)) := by
  intro numbered
  have digits := labelDigits_numbered known (limit + 1)
  rcases numbered with plain | ⟨other, known', num, small, same⟩
  · have none : labelDigits (hint ++ toString (limit + 1)) = [] := by
      revert plain
      generalize hint ++ toString (limit + 1) = label
      revert label
      decide
    rw [none] at digits
    exact Nat.toDigits_ne_nil (List.reverse_eq_nil_iff.mp digits.symm)
  · rw [same, labelDigits_numbered known' num] at digits
    have := toDigits_inj (List.reverse_injective digits)
    omega

namespace Builder

variable (b : Builder)

def Open (i : Nat) : Prop := ∃ block, b.function.block? i = some block ∧ block.terminator = none

def Idle (i : Nat) : Prop := ∃ label, b.function.block? i = some { label }

/-- More of the same function. Finished blocks are as they were, others have more code. -/
structure Grows (b b' : Builder) : Prop where
  symbol : b'.function.symbol = b.function.symbol
  type : b'.function.type = b.function.type
  internal : b'.function.internal = b.function.internal
  blocks : ∀ i block, b.function.block? i = some block →
    ∃ block', b'.function.block? i = some block' ∧
    block'.label = block.label ∧ block.instructions <+: block'.instructions ∧
    (block.terminator.isSome → block' = block)

theorem Grows.refl : b.Grows b where
  symbol := rfl
  type := rfl
  internal := rfl
  blocks _ block found := ⟨block, found, rfl, List.prefix_refl _, fun _ => rfl⟩

theorem Grows.trans {a b c : Builder} (first : a.Grows b) (second : b.Grows c) : a.Grows c where
  symbol := second.symbol.trans first.symbol
  type := second.type.trans first.type
  internal := second.internal.trans first.internal
  blocks i block found := by
    obtain ⟨block', found', label, more, kept⟩ := first.blocks i block found
    obtain ⟨block'', found'', label', more', kept'⟩ := second.blocks i block' found'
    refine ⟨block'', found'', label'.trans label, more.trans more', fun finished => ?_⟩
    obtain rfl := kept finished
    exact kept' finished

def appended (next : Nat) (code : List Instruction) : Builder :=
  { b.modifyBlock b.current (fun block => { block with instructions := block.instructions ++ code }) with
    nextRegister := next }

def withSlot (ty : IrType) : Builder :=
  { b.modifyBlock 0 (fun block =>
      { block with instructions := block.instructions ++ [.alloca b.nextRegister ty] }) with
    nextRegister := b.nextRegister + 1 }

def terminated (term : Terminator) : Builder :=
  b.modifyBlock b.current fun block => { block with terminator := some term }

def withBlock (hint : String) : Builder :=
  { b with
    nextLabel := b.nextLabel + 1
    function.blocks := b.function.blocks ++ [{ label := hint ++ toString (b.nextLabel + 1) }] }

def positioned (idx : Nat) : Builder := { b with current := idx }

theorem block?_modifyBlock (i j : Nat) (change : Block → Block) :
    (b.modifyBlock i change).function.block? j =
      (b.function.block? j).map fun block => if i = j then change block else block := by
  simp only [modifyBlock, Function.block?, List.getElem?_modify]
  rfl

theorem block?_appended (next : Nat) (code : List Instruction) (j : Nat) :
    (b.appended next code).function.block? j = (b.function.block? j).map fun block =>
      if b.current = j then { block with instructions := block.instructions ++ code } else block :=
  block?_modifyBlock ..

theorem block?_withSlot (ty : IrType) (j : Nat) :
    (b.withSlot ty).function.block? j = (b.function.block? j).map fun block =>
      if 0 = j then { block with instructions := block.instructions ++ [.alloca b.nextRegister ty] }
      else block :=
  block?_modifyBlock ..

theorem block?_terminated (term : Terminator) (j : Nat) :
    (b.terminated term).function.block? j = (b.function.block? j).map fun block =>
      if b.current = j then { block with terminator := some term } else block :=
  block?_modifyBlock ..

theorem block?_withBlock (hint : String) (j : Nat) :
    (b.withBlock hint).function.block? j =
      if j = b.function.blocks.length then some { label := hint ++ toString (b.nextLabel + 1) }
      else b.function.block? j := by
  simp only [withBlock, Function.block?, List.getElem?_append, List.getElem?_singleton]
  grind

variable {b : Builder} {i : Nat} {change : Block → Block}

theorem block?_lt (found : b.function.block? i = some block) : i < b.function.blocks.length :=
  (List.getElem?_eq_some_iff.mp found).1

theorem grows_modifyBlock (waiting : b.Open i) (label : ∀ block, (change block).label = block.label)
    (more : ∀ block, block.instructions <+: (change block).instructions) :
    b.Grows (b.modifyBlock i change) := by
  refine ⟨rfl, rfl, rfl, fun j block found => ?_⟩
  refine ⟨_, by rw [block?_modifyBlock, found]; rfl, ?_, ?_, ?_⟩
  · split
    · exact label block
    · rfl
  · split
    · exact more block
    · exact List.prefix_refl _
  · intro finished
    split
    · next same =>
      obtain ⟨waits, there, none⟩ := waiting
      rw [same, found] at there
      cases there
      rw [none] at finished
      contradiction
    · rfl

theorem open_modifyBlock (kept : ∀ block, (change block).terminator = block.terminator) (j : Nat) :
    (b.modifyBlock i change).Open j ↔ b.Open j := by
  simp only [Open, block?_modifyBlock, Option.map_eq_some_iff]
  constructor
  · rintro ⟨_, ⟨block, found, rfl⟩, none⟩
    refine ⟨block, found, ?_⟩
    split at none
    · rwa [kept] at none
    · exact none
  · rintro ⟨block, found, none⟩
    refine ⟨_, ⟨block, found, rfl⟩, ?_⟩
    split
    · rwa [kept]
    · exact none

theorem open_appended (b : Builder) (next : Nat) (code : List Instruction) (j : Nat) :
    (b.appended next code).Open j ↔ b.Open j := open_modifyBlock (by intro block; rfl) j

theorem open_terminated (b : Builder) (term : Terminator) (j : Nat) :
    (b.terminated term).Open j ↔ b.Open j ∧ j ≠ b.current := by
  simp only [Open, block?_terminated, Option.map_eq_some_iff]
  constructor
  · rintro ⟨_, ⟨block, found, rfl⟩, none⟩
    split at none
    · contradiction
    · next ne => exact ⟨⟨block, found, none⟩, Ne.symm ne⟩
  · rintro ⟨⟨block, found, none⟩, ne⟩
    refine ⟨_, ⟨block, found, rfl⟩, ?_⟩
    rwa [if_neg (Ne.symm ne)]

theorem open_withBlock (b : Builder) (hint : String) (j : Nat) :
    (b.withBlock hint).Open j ↔ b.Open j ∨ j = b.function.blocks.length := by
  simp only [Open, block?_withBlock]
  split
  · next last => simp [last]
  · next ne => simp [ne]

theorem Open.lt (waiting : b.Open i) : i < b.function.blocks.length := by
  obtain ⟨block, found, -⟩ := waiting
  exact block?_lt found

theorem not_isTerminated (waiting : b.Open b.current) : b.isTerminated = false := by
  obtain ⟨block, found, none⟩ := waiting
  simp [isTerminated, found, none]

theorem run_terminate (here : b.Open b.current) (term : Terminator) :
    ((Build.terminate term).run b).2 = b.terminated term := by
  simp [Build.terminate, modify, modifyGet, MonadStateOf.modifyGet, StateT.modifyGet, StateT.run,
    not_isTerminated here, terminated, pure]

theorem grows_appended (here : b.Open b.current) : b.Grows (b.appended next code) := by
  have grows : b.Grows (b.modifyBlock b.current fun block =>
      { block with instructions := block.instructions ++ code }) :=
    grows_modifyBlock here (fun _ => rfl) fun _ => List.prefix_append _ _
  exact ⟨rfl, rfl, rfl, grows.blocks⟩

theorem grows_withSlot {ty : IrType} (entry : b.Open 0) : b.Grows (b.withSlot ty) := by
  have grows : b.Grows (b.modifyBlock 0 fun block =>
      { block with instructions := block.instructions ++ [.alloca b.nextRegister ty] }) :=
    grows_modifyBlock entry (fun _ => rfl) fun _ => List.prefix_append _ _
  exact ⟨rfl, rfl, rfl, grows.blocks⟩

theorem grows_terminated (here : b.Open b.current) : b.Grows (b.terminated term) :=
  grows_modifyBlock here (fun _ => rfl) fun _ => List.prefix_refl _

theorem grows_withBlock (b : Builder) (hint : String) : b.Grows (b.withBlock hint) := by
  refine ⟨rfl, rfl, rfl, fun i block found => ?_⟩
  refine ⟨block, ?_, rfl, List.prefix_refl _, fun _ => rfl⟩
  rw [block?_withBlock, if_neg (Nat.ne_of_lt (block?_lt found))]
  exact found

/-- Registers that the current block has defined. -/
def locals (b : Builder) : List Nat :=
  match b.function.block? b.current with
  | some block => defined block.instructions
  | none => []

/-- The value may be an operand at the end of the current block. -/
def Usable (params : Nat) (b : Builder) (val : Value) : Prop :=
  val.Known params (b.function.slots ++ b.locals)

theorem slots_appended (inside : b.current ≠ 0) (next : Nat) (code : List Instruction) :
    (b.appended next code).function.slots = b.function.slots := by
  simp only [Function.slots, block?_appended, if_neg inside, Option.map_id']

theorem slots_terminated (b : Builder) (term : Terminator) :
    (b.terminated term).function.slots = b.function.slots := by
  simp only [Function.slots, block?_terminated]
  cases b.function.block? 0 with
  | none => rfl
  | some block =>
    simp only [Option.map_some]
    split <;> rfl

theorem slots_withSlot (entry : b.Open 0) (ty : IrType) :
    (b.withSlot ty).function.slots = b.function.slots ++ [b.nextRegister] := by
  obtain ⟨block, found, -⟩ := entry
  simp only [Function.slots, block?_withSlot, found, Option.map_some, if_true, defined_append]
  rfl

theorem slots_withBlock (entry : b.Open 0) (hint : String) :
    (b.withBlock hint).function.slots = b.function.slots := by
  obtain ⟨block, found, -⟩ := entry
  simp only [Function.slots, block?_withBlock, if_neg (Nat.ne_of_lt (block?_lt found)), found]

theorem flatMap_modify_perm (blocks : List Block) (bound : i < blocks.length)
    (code : List Instruction) :
    ((blocks.modify i fun block =>
      { block with instructions := block.instructions ++ code }).flatMap
      (defined ·.instructions)).Perm (defined code ++ blocks.flatMap (defined ·.instructions)) := by
  induction blocks generalizing i with
  | nil => contradiction
  | cons block rest ih =>
    cases i with
    | zero =>
      simp only [List.modify_zero_cons, List.flatMap_cons, defined_append, List.append_assoc]
      exact List.perm_append_comm_assoc ..
    | succ i =>
      exact ((ih (Nat.lt_of_succ_lt_succ bound)).append_left _).trans (List.perm_append_comm_assoc ..)

theorem registers_appended (here : b.Open b.current) (next : Nat) (code : List Instruction) :
    (b.appended next code).function.registers.Perm (defined code ++ b.function.registers) := by
  obtain ⟨block, found, -⟩ := here
  exact flatMap_modify_perm _ (block?_lt found) code

theorem registers_withSlot (entry : b.Open 0) (ty : IrType) :
    (b.withSlot ty).function.registers.Perm (b.nextRegister :: b.function.registers) := by
  obtain ⟨block, found, -⟩ := entry
  exact flatMap_modify_perm _ (block?_lt found) [.alloca b.nextRegister ty]

theorem registers_terminated (b : Builder) (term : Terminator) :
    (b.terminated term).function.registers = b.function.registers := by
  simp only [terminated, modifyBlock, Function.registers]
  generalize b.function.blocks = blocks
  generalize b.current = i
  induction blocks generalizing i with
  | nil => simp
  | cons block rest ih => cases i <;> simp [ih]

theorem registers_withBlock (b : Builder) (hint : String) :
    (b.withBlock hint).function.registers = b.function.registers := by
  simp [withBlock, Function.registers]

theorem labels_modifyBlock (label : ∀ block, (change block).label = block.label) :
    (b.modifyBlock i change).function.labels = b.function.labels := by
  simp only [modifyBlock, Function.labels]
  generalize b.function.blocks = blocks
  induction blocks generalizing i with
  | nil => simp
  | cons block rest ih => cases i <;> simp [ih, label]

theorem Grows.length_le {b b' : Builder} (grows : b.Grows b') :
    b.function.blocks.length ≤ b'.function.blocks.length := by
  apply Nat.le_of_not_lt
  intro fewer
  obtain ⟨block, found, -⟩ := grows.blocks _ _ (List.getElem?_eq_getElem fewer)
  exact Nat.lt_irrefl _ (block?_lt found)

theorem Grows.slots_subset {b b' : Builder} (grows : b.Grows b') :
    b.function.slots ⊆ b'.function.slots := by
  unfold Function.slots
  split
  · next block found =>
    obtain ⟨block', found', -, more, -⟩ := grows.blocks 0 block found
    rw [found']
    exact (more.filterMap _).subset
  · exact List.nil_subset _

theorem Grows.locals_subset {b b' : Builder} (grows : b.Grows b')
    (current : b'.current = b.current) :
    b.locals ⊆ b'.locals := by
  unfold locals
  rw [current]
  split
  · next block found =>
    obtain ⟨block', found', -, more, -⟩ := grows.blocks b.current block found
    rw [found']
    exact (more.filterMap _).subset
  · exact List.nil_subset _

theorem usable_appended (here : b.Open b.current) (ty : IrType)
    (res : instruction.result? = some register) :
    (b.appended next [instruction]).Usable params (.register register ty) := by
  obtain ⟨block, found, -⟩ := here
  refine List.mem_append_right _ ?_
  change register ∈ (match (b.appended next [instruction]).function.block? b.current with
    | some block => defined block.instructions
    | none => [])
  simp [block?_appended, found, defined, res]

theorem Grows.usable {b b' : Builder} (grows : b.Grows b') (current : b'.current = b.current)
    (usable : b.Usable params val) : b'.Usable params val :=
  usable.mono (List.append_subset.mpr ⟨List.subset_append_of_subset_left _ grows.slots_subset,
    List.subset_append_of_subset_right _ (grows.locals_subset current)⟩)

end Builder
end TernLang.Ir
