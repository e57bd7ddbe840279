import TernLang.Proofs.Ir.Builder
import TernLang.Proofs.Ir.Module
import TernLang.Proofs.Ir.Shape

/-! Typed code under construction. What an instruction needs is never taken away, so that it is
checked once, when it is added; a function whose registers are defined once is then well typed as a
whole. -/
namespace TernLang.Ir

variable {name : String} {instr : Instruction} {term : Terminator}

namespace Module
variable {mod mod' mod'' : Module}

/-- The same structs, and at least the same names. -/
structure Keeps (before after : Module) : Prop where
  structs : after.structs = before.structs
  globals : ∀ name, (before.globals.get? name).isSome → (after.globals.get? name).isSome
  functions : ∀ sym, (before.function? sym).isSome → (after.function? sym).isSome

theorem Keeps.refl (mod : Module) : mod.Keeps mod := ⟨rfl, fun _ => id, fun _ => id⟩

theorem Keeps.trans (first : mod.Keeps mod') (second : mod'.Keeps mod'') : mod.Keeps mod'' where
  structs := second.structs.trans first.structs
  globals name there := second.globals name (first.globals name there)
  functions sym there := second.functions sym (first.functions sym there)

theorem Extends.keeps (more : mod.Extends mod') : mod.Keeps mod' where
  structs := more.structs
  globals := more.globals
  functions sym there := by
    obtain ⟨fn, found⟩ := Option.isSome_iff_exists.mp there
    exact Option.isSome_iff_exists.mpr ⟨fn, more.functions sym fn found⟩

theorem keeps_putFunction (mod : Module) (fn : Function) : mod.Keeps (mod.putFunction fn) where
  structs := rfl
  globals _ := id
  functions sym there := by
    simp only [putFunction, function?, Table.get?_insert] at there ⊢
    split
    · rfl
    · exact there

theorem isSized_congr (same : mod'.structs = mod.structs) (ty : IrType) :
    mod'.isSized ty = mod.isSized ty := by
  induction ty with
  | struct name => rw [isSized, isSized, same]
  | array elem _ ih => exact ih
  | _ => rfl

theorem partType?_congr (same : mod'.structs = mod.structs) (ty : IrType) (idx : Nat) :
    mod'.partType? ty idx = mod.partType? ty idx := by
  cases ty with
  | struct name => rw [partType?, partType?, same]
  | _ => rfl

def Keyed (mod : Module) : Prop :=
  ∀ name global, mod.globals.get? name = some global → global.name = name

theorem Keyed.insert (keyed : mod.Keyed) (named : global.name = name) :
    Keyed { mod with globals := mod.globals.insert name global } := by
  intro other found there
  rw [Table.get?_insert] at there
  split at there
  · next same =>
    cases there
    exact named.trans same.symm
  · exact keyed other found there

theorem Keyed.addString (keyed : mod.Keyed) (text : String) : (mod.addString text).1.Keyed :=
  keyed.insert rfl

theorem Keyed.hasGlobal (keyed : mod.Keyed) (there : (mod.globals.get? name).isSome) :
    mod.hasGlobal name := by
  obtain ⟨global, found⟩ := Option.isSome_iff_exists.mp there
  rw [Module.hasGlobal, List.any_eq_true]
  refine ⟨global, List.mem_map.mpr ⟨_, Table.mem_of_find found, rfl⟩, ?_⟩
  simpa using keyed name global found

end Module

theorem Instruction.fits_congr (same : mod'.structs = mod.structs) (instr : Instruction) :
    instr.Fits mod' ↔ instr.Fits mod := by
  cases instr <;> simp only [Fits, Module.isSized_congr same, Module.partType?_congr same]

variable {ty : IrType}

namespace Function
variable {fn fn' fn'' : Function}

def ends (fn : Function) : List Terminator := fn.blocks.filterMap (·.terminator)

/-- An instruction computes the register, with this type. -/
def Computes (fn : Function) (reg : Nat) (ty : IrType) : Prop :=
  ∃ instr ∈ fn.code, instr.result? = some reg ∧ instr.type = ty

theorem exists_mem_blocks {property : Block → Prop} :
    (∃ block ∈ fn.blocks, property block) ↔ ∃ i block, fn.block? i = some block ∧
      property block := by
  simp only [List.mem_iff_getElem?, block?]
  constructor
  · rintro ⟨block, ⟨i, found⟩, holds⟩
    exact ⟨i, block, found, holds⟩
  · rintro ⟨i, block, found, holds⟩
    exact ⟨block, ⟨i, found⟩, holds⟩

theorem mem_code :
    instr ∈ fn.code ↔ ∃ i block, fn.block? i = some block ∧ instr ∈ block.instructions :=
  List.mem_flatMap.trans exists_mem_blocks

theorem mem_ends :
    term ∈ fn.ends ↔ ∃ i block, fn.block? i = some block ∧ block.terminator = some term :=
  List.mem_filterMap.trans exists_mem_blocks

/-- The second function is the first one with more code. -/
structure Within (before after : Function) : Prop where
  type : after.type = before.type
  code : before.code ⊆ after.code
  count : before.blocks.length ≤ after.blocks.length

theorem Within.refl (fn : Function) : fn.Within fn := ⟨rfl, List.Subset.refl _, Nat.le_refl _⟩

theorem Within.trans (first : fn.Within fn') (second : fn'.Within fn'') :
    fn.Within fn'' where
  type := second.type.trans first.type
  code := List.Subset.trans first.code second.code
  count := Nat.le_trans first.count second.count

theorem Computes.mono (computes : fn.Computes reg ty) (within : fn.Within fn') :
    fn'.Computes reg ty := by
  obtain ⟨instr, mem, rest⟩ := computes
  exact ⟨instr, within.code mem, rest⟩

end Function

variable {mod mod' : Module} {fn fn' : Function}

def Value.Given (mod : Module) (fn : Function) (val : Value) : Prop :=
  match val.operand with
  | .register idx => fn.Computes idx val.type
  | .argument idx => fn.type.params[idx]? = some val.type
  | .int word => ∃ bits, val.type = .int bits ∧ Word.truncate word bits = word
  | .float _ => val.type.isFloat
  | .null => val.type = .pointer
  | .zero => True
  | .global name => val.type = .pointer ∧ (mod.globals.get? name).isSome
  | .function sym => val.type = .pointer ∧ (mod.function? sym).isSome

structure Value.Carried (mod : Module) (fn : Function) (val : Value) : Prop where
  sized : mod.isSized val.type
  given : val.Given mod fn

namespace Value.Carried

theorem mono {val : Value} (carried : val.Carried mod fn) (within : fn.Within fn')
    (keeps : mod.Keeps mod') : val.Carried mod' fn' where
  sized := (Module.isSized_congr keeps.structs _).trans carried.sized
  given := by
    obtain ⟨operand, ty⟩ := val
    have given := carried.given
    cases operand with
    | register idx => exact Function.Computes.mono given within
    | argument idx =>
      simp only [Given, within.type]
      exact given
    | global name => exact given.imp id (keeps.globals name)
    | function sym => exact given.imp id (keeps.functions sym)
    | int | float | null | zero => exact given

theorem int (bits : Nat) (word : UInt64) : (Value.int bits word).Carried mod fn :=
  ⟨rfl, bits, rfl, Word.truncate_truncate word bits⟩

theorem zero (sized : mod.isSized ty) : (Value.zero ty).Carried mod fn :=
  ⟨sized, trivial⟩

end Value.Carried

structure Instruction.Checked (mod : Module) (fn : Function) (instr : Instruction) : Prop where
  operands : ∀ val ∈ instr.operands, val.Carried mod fn
  fits : instr.Fits mod
  result : instr.type = .void ∨ mod.isSized instr.type

structure Terminator.Checked (mod : Module) (fn : Function) (term : Terminator) : Prop where
  operands : ∀ val ∈ term.operands, val.Carried mod fn
  fits : term.Fits fn.type.result

theorem Instruction.Checked.mono (checked : instr.Checked mod fn) (within : fn.Within fn')
    (keeps : mod.Keeps mod') : instr.Checked mod' fn' where
  operands val mem := (checked.operands val mem).mono within keeps
  fits := (instr.fits_congr keeps.structs).mpr checked.fits
  result := by
    rw [Module.isSized_congr keeps.structs]
    exact checked.result

theorem Terminator.Checked.mono (checked : term.Checked mod fn) (within : fn.Within fn')
    (keeps : mod.Keeps mod') : term.Checked mod' fn' where
  operands val mem := (checked.operands val mem).mono within keeps
  fits := within.type ▸ checked.fits

structure Function.Checked (mod : Module) (fn : Function) : Prop where
  code : ∀ instr ∈ fn.code, instr.Checked mod fn
  ends : ∀ term ∈ fn.ends, term.Checked mod fn

theorem Function.Checked.grow (checked : fn.Checked mod) (within : fn.Within fn')
    (code : ∀ instr ∈ fn'.code, instr ∈ fn.code ∨ instr.Checked mod fn)
    (ends : ∀ term ∈ fn'.ends, term ∈ fn.ends ∨ term.Checked mod fn) :
    fn'.Checked mod where
  code instr mem :=
    ((code instr mem).elim (checked.code instr) id).mono within (.refl mod)
  ends term mem :=
    ((ends term mem).elim (checked.ends term) id).mono within (.refl mod)

theorem Function.Checked.keep (checked : fn.Checked mod) (keeps : mod.Keeps mod') :
    fn.Checked mod' where
  code instr mem := (checked.code instr mem).mono (.refl fn) keeps
  ends term mem := (checked.ends term mem).mono (.refl fn) keeps

theorem Function.Checked.declaration (none : fn.blocks = []) : fn.Checked mod where
  code := by simp [Function.code, none]
  ends := by simp [Function.ends, none]

theorem Function.Checked.withBlock (checked : fn.Checked mod) (label : String) :
    Function.Checked mod { fn with blocks := fn.blocks ++ [{ label }] } ∧
      fn.Within { fn with blocks := fn.blocks ++ [{ label }] } := by
  have code : Function.code { fn with blocks := fn.blocks ++ [{ label }] } = fn.code := by
    simp [Function.code]
  have ends : Function.ends { fn with blocks := fn.blocks ++ [{ label }] } = fn.ends := by
    simp [Function.ends]
  have within : fn.Within { fn with blocks := fn.blocks ++ [{ label }] } :=
    ⟨rfl, code ▸ List.Subset.refl _, by simp⟩
  refine ⟨checked.grow within ?_ ?_, within⟩
  · rw [code]
    exact fun _ => .inl
  · rw [ends]
    exact fun _ => .inl

namespace Builder
variable {b : Builder}

/-! What the builder's operations do to the code. -/

variable {code : List Instruction} {next : Nat}

theorem mem_code_appended :
    instr ∈ (b.appended next code).function.code ↔
      instr ∈ b.function.code ∨ b.current < b.function.blocks.length ∧ instr ∈ code := by
  simp only [Function.mem_code, block?_appended, Option.map_eq_some_iff]
  constructor
  · rintro ⟨i, _, ⟨block, found, rfl⟩, mem⟩
    split at mem
    · next here =>
      rcases List.mem_append.mp mem with old | new
      · exact .inl ⟨i, block, found, old⟩
      · exact .inr ⟨here ▸ block?_lt found, new⟩
    · exact .inl ⟨i, block, found, mem⟩
  · rintro (⟨i, block, found, mem⟩ | ⟨small, mem⟩)
    · refine ⟨i, _, ⟨block, found, rfl⟩, ?_⟩
      split
      · exact List.mem_append_left _ mem
      · exact mem
    · refine ⟨b.current, _, ⟨_, List.getElem?_eq_getElem small, rfl⟩, ?_⟩
      rw [if_pos rfl]
      exact List.mem_append_right _ mem

theorem mem_ends_appended :
    term ∈ (b.appended next code).function.ends ↔ term ∈ b.function.ends := by
  simp only [Function.mem_ends, block?_appended, Option.map_eq_some_iff]
  constructor
  · rintro ⟨i, _, ⟨block, found, rfl⟩, ends⟩
    refine ⟨i, block, found, ?_⟩
    split at ends <;> exact ends
  · rintro ⟨i, block, found, ends⟩
    refine ⟨i, _, ⟨block, found, rfl⟩, ?_⟩
    split <;> exact ends

theorem within_appended (b : Builder) (next : Nat) (code : List Instruction) :
    b.function.Within (b.appended next code).function where
  type := rfl
  code _ mem := mem_code_appended.mpr (.inl mem)
  count := Nat.le_of_eq (List.length_modify ..).symm

theorem checked_appended (checked : b.function.Checked mod)
    (new : ∀ instr ∈ code, instr.Checked mod b.function) :
    (b.appended next code).function.Checked mod := by
  refine checked.grow (within_appended b next code) ?_ ?_
  · intro instr mem
    exact (mem_code_appended.mp mem).imp_right fun added => new instr added.2
  · intro term mem
    exact .inl (mem_ends_appended.mp mem)

theorem function_withSlot (b : Builder) (ty : IrType) : (b.withSlot ty).function =
    ((b.positioned 0).appended (b.nextRegister + 1) [.alloca b.nextRegister ty]).function := rfl

theorem terminated_cases (mem : other ∈ (b.terminated term).function.ends) :
    other ∈ b.function.ends ∨ other = term := by
  simp only [Function.mem_ends, block?_terminated, Option.map_eq_some_iff] at mem ⊢
  obtain ⟨i, _, ⟨block, found, rfl⟩, ends⟩ := mem
  split at ends
  · cases ends
    exact .inr rfl
  · exact .inl ⟨i, block, found, ends⟩

theorem code_terminated (b : Builder) (term : Terminator) :
    b.function.code ⊆ (b.terminated term).function.code ∧
      (b.terminated term).function.code ⊆ b.function.code := by
  simp only [List.subset_def, Function.mem_code, block?_terminated, Option.map_eq_some_iff]
  constructor
  · rintro instr ⟨i, block, found, mem⟩
    refine ⟨i, _, ⟨block, found, rfl⟩, ?_⟩
    split <;> exact mem
  · rintro instr ⟨i, _, ⟨block, found, rfl⟩, mem⟩
    refine ⟨i, block, found, ?_⟩
    split at mem <;> exact mem

theorem checked_terminated (checked : b.function.Checked mod) (new : term.Checked mod b.function) :
    (b.terminated term).function.Checked mod ∧ b.function.Within (b.terminated term).function := by
  obtain ⟨more, same⟩ := code_terminated b term
  have within : b.function.Within (b.terminated term).function :=
    ⟨rfl, more, Nat.le_of_eq (List.length_modify ..).symm⟩
  refine ⟨checked.grow within (fun _ mem => .inl (same mem)) ?_, within⟩
  intro other mem
  refine (terminated_cases mem).imp_right ?_
  rintro rfl
  exact new

/-- A terminator that is refused changes no code. -/
theorem checked_terminate (checked : b.function.Checked mod) (new : term.Checked mod b.function) :
    ((Build.terminate term).run b).2.function.Checked mod ∧
      b.function.Within ((Build.terminate term).run b).2.function := by
  have cases : ((Build.terminate term).run b).2.function = b.function ∨
      ((Build.terminate term).run b).2.function = (b.terminated term).function := by
    simp only [Build.terminate, modify, modifyGet, MonadStateOf.modifyGet, StateT.modifyGet, StateT.run, pure]
    split
    · exact .inl rfl
    · exact .inr rfl
  rcases cases with same | same
  · rw [same]
    exact ⟨checked, .refl _⟩
  · rw [same]
    exact checked_terminated checked new

end Builder

/-! Finished functions. -/

/-- Where registers are defined once and globals are found by their names, values are typed. -/
theorem Value.Carried.typed {val : Value} (carried : val.Carried mod fn)
    (unique : fn.registers.Nodup) (keyed : mod.Keyed) : val.Typed mod fn := by
  obtain ⟨operand, ty⟩ := val
  have given := carried.given
  cases operand with
  | register idx =>
    obtain ⟨instr, mem, defines, same⟩ := given
    obtain ⟨block, there, mem⟩ := List.mem_flatMap.mp mem
    have found := Function.registerType?_of_mem unique there mem defines
    rw [same] at found
    exact found
  | zero => exact carried.sized
  | global name => exact given.imp id keyed.hasGlobal
  | argument | int | float | null | function => exact given

theorem Function.Checked.wellTyped (checked : fn.Checked mod) (unique : fn.registers.Nodup)
    (keyed : mod.Keyed) : fn.WellTyped mod := by
  have code : ∀ block ∈ fn.blocks, ∀ instr ∈ block.instructions, instr.Checked mod fn :=
    fun block there instr mem => checked.code instr (List.mem_flatMap.mpr ⟨block, there, mem⟩)
  have ends : ∀ block ∈ fn.blocks, ∀ term, block.terminator = some term →
      term.Checked mod fn :=
    fun block there term found => checked.ends term (List.mem_filterMap.mpr ⟨block, there, found⟩)
  constructor
  · intro block there instr mem val operand
    exact ((code block there instr mem).operands val operand).typed unique keyed
  · intro block there instr mem
    exact (code block there instr mem).fits
  · intro block there term found val operand
    exact ((ends block there term found).operands val operand).typed unique keyed
  · intro block there term found
    exact (ends block there term found).fits

def Module.NamesStructs (mod : Module) : Prop :=
  ∀ sym fn, mod.function? sym = some fn → ∀ block ∈ fn.blocks,
    ∀ instr ∈ block.instructions, ∀ ty ∈ instr.types, ∀ name ∈ ty.structs,
      (mod.structs.get? name).isSome

theorem FunctionType.subset_of_accepts {ty : FunctionType} {args : List IrType}
    (accepts : ty.accepts args) :
    ty.params ⊆ args := by
  unfold FunctionType.accepts at accepts
  split at accepts
  · exact (List.isPrefixOf_iff_prefix.mp accepts).subset
  · exact (of_decide_eq_true accepts) ▸ List.Subset.refl _

theorem Instruction.Checked.types (checked : instr.Checked mod fn) :
    ∀ ty ∈ instr.types, ty = .void ∨ mod.isSized ty := by
  have operands : ∀ ty ∈ instr.operands.map (·.type), mod.isSized ty := by
    intro ty mem
    obtain ⟨val, operand, rfl⟩ := List.mem_map.mp mem
    exact (checked.operands val operand).sized
  intro ty mem
  rcases List.mem_append.mp mem with mem | mem
  · rcases List.mem_cons.mp mem with rfl | mem
    · exact checked.result
    · exact .inr (operands ty mem)
  · have fits := checked.fits
    cases instr with
    | alloca res kept =>
      obtain rfl := List.mem_singleton.mp mem
      exact .inr fits
    | elementPtr res base ptr indices =>
      obtain rfl := List.mem_singleton.mp mem
      exact .inr fits.1
    | call res callee sig args =>
      have passed := FunctionType.subset_of_accepts fits.2 mem
      exact .inr (operands ty (List.mem_cons_of_mem _ passed))
    | load | store | binary | compare | cast | extractValue | insertValue => contradiction

theorem Instruction.Checked.structs (checked : instr.Checked mod fn) (mem : ty ∈ instr.types)
    (inner : name ∈ ty.structs) : (mod.structs.get? name).isSome := by
  rcases checked.types ty mem with rfl | sized
  · contradiction
  · exact Option.isSome_iff_exists.mpr (Module.struct_of_isSized sized inner)

end TernLang.Ir
