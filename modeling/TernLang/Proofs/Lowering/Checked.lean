import TernLang.Proofs.Ir.Checking
import TernLang.Proofs.Lowering.FunctionInversion
import TernLang.Proofs.Typing.Meaning
import TernLang.Proofs.Typing.Rules

/-! Typed states of lowering. A value carries the lowered type of its source type, an address is a
pointer, and all code so far is checked. Every operation of the builder keeps this. -/
namespace TernLang

/-- No alias and no enumeration is named like a built-in type. -/
structure Program.Plain (prog : Program) : Prop where
  aliases : ∀ primitive : Primitive, prog.alias? primitive.name = none
  enums : ∀ primitive : Primitive, prog.enum? primitive.name = none

theorem Program.Plain.lowers {prog : Program} (plain : prog.Plain) (primitive : Primitive) :
    prog.Lowers (.named primitive.name) (TypeClass.ofPrimitive primitive).irType :=
  ⟨⟨prog.file, 0⟩, irType_of_classify (classify_builtIn primitive (plain.aliases primitive))⟩

theorem Program.Plain.lowers_enum {prog : Program} (plain : prog.Plain)
    (consistent : prog.Consistent) (there : prog.enum? scope = some enum_) :
    prog.Lowers (.named scope) (.int enum_.bits) := by
  have mem : enum_ ∈ prog.enums := List.mem_of_find?_eq_some there
  have named : enum_.name = scope := by simpa using List.find?_some there
  have known := consistent.classifyName?_enum mem
  rw [named] at known
  have other : Primitive.ofName? scope = none := by
    apply Option.eq_none_iff_forall_ne_some.mpr
    intro primitive builtIn
    rw [← Primitive.name_of_ofName? builtIn, plain.enums] at there
    contradiction
  rw [unlessBuiltIn, other] at known
  have bare : prog.alias? scope = none :=
    consistent.alias?_eq_none (.inr (.inr (named ▸ List.mem_map_of_mem mem)))
  have classifies : prog.classify ⟨prog.file, 0⟩ (.named scope) = .ok (.integer enum_.bits false) := by
    simp only [classify, Success.bind_ok]
    refine ⟨.named scope, resolve_plain bare, ?_⟩
    simp only [classifyResolved, known]
    rfl
  exact lowers_of_classify classifies

namespace Lowering

open Ir (Instruction Terminator)
open Success

variable {prog : Program} {mod mod' : Ir.Module}

theorem memberTypes_ok {types : List IrType} (run : memberTypes prog loc fields = .ok types) :
    List.Forall₂ (Solid prog loc) (fields.map (·.type)) types := by
  induction fields generalizing types with
  | nil =>
    simp only [memberTypes, pure_ok] at run
    exact run ▸ .nil
  | cons field fields ih =>
    simp only [memberTypes, bind_ok] at run
    obtain ⟨lowered, found, run⟩ := run
    split at run
    · contradiction
    · next solid =>
      simp only [bind_ok, pure_ok] at run
      obtain ⟨rest, later, rfl⟩ := run
      exact .cons ⟨found, solid⟩ (ih later)

structure HasStructs (prog : Program) (mod : Ir.Module) : Prop where
  structures : ∀ struct ∈ prog.structures, ∃ fields,
    memberTypes prog ⟨struct.origin, struct.line⟩ struct.members = .ok fields ∧
    mod.structs.get? struct.name = some ⟨fields, struct.isPacked⟩
  classes : ∀ cls ∈ prog.classes, ∃ fields,
    memberTypes prog ⟨cls.origin, cls.line⟩ (instanceMembers cls) = .ok fields ∧
    mod.structs.get? cls.name = some ⟨fields, false⟩

theorem HasStructs.congr (has : HasStructs prog mod) (same : mod'.structs = mod.structs) :
    HasStructs prog mod' where
  structures := same ▸ has.structures
  classes := same ▸ has.classes

/-- What has the symbol, if anything, is of the type. -/
def Assigns (mod : Ir.Module) (sym : String) (ty : Ir.FunctionType) : Prop :=
  ∀ fn, mod.function? sym = some fn → fn.type = ty

variable {sym name : String} {ty given : Ir.FunctionType}

theorem Assigns.getD (assigns : Assigns mod sym ty) :
    ((mod.function? sym).map (·.type)).getD ty = ty := by
  cases found : mod.function? sym with
  | none => rfl
  | some fn => exact assigns fn found

theorem Assigns.declare (assigns : Assigns mod sym ty)
    (agrees : name = sym → given = ty) : Assigns (mod.declare name given) sym ty := by
  intro fn found
  simp only [Ir.Module.declare, Ir.Module.function?, Table.get?_insertNew] at found
  rcases Option.or_eq_some_iff.mp found with old | ⟨-, new⟩
  · exact assigns fn old
  · split at new
    · next same =>
      cases new
      exact agrees same.symm
    · contradiction

theorem isSome_declare (there : (mod.function? sym).isSome ∨ name = sym) :
    ((mod.declare name given).function? sym).isSome := by
  simp only [Ir.Module.declare, Ir.Module.function?, Table.get?_insertNew, Option.isSome_or,
    Bool.or_eq_true] at there ⊢
  exact there.imp_right fun same => by simp [same]

theorem mem_allFunctions_function (mem : fn ∈ prog.functions) : (fn, none) ∈ allFunctions prog :=
  List.mem_append_left _ (List.mem_map_of_mem mem)

theorem mem_allFunctions_method (mem : cls ∈ prog.classes) (inside : method ∈ cls.methods) :
    (method, some cls) ∈ allFunctions prog :=
  List.mem_append_right _ (List.mem_flatten.mpr ⟨_, List.mem_map_of_mem mem, List.mem_map_of_mem inside⟩)

theorem mem_storages_global (mem : glob ∈ prog.globals) :
    ⟨glob.name, glob.type, glob.isImported || glob.isExternal, glob.origin, glob.line⟩ ∈
      storages prog :=
  List.mem_append_left _ (List.mem_map.mpr ⟨glob, mem, rfl⟩)

theorem mem_storages_static (mem : cls ∈ prog.classes) (inside : field ∈ cls.members)
    (isStatic : field.isStatic) :
    ⟨cls.staticSymbol field.name, field.type, cls.isImported, cls.origin, cls.line⟩ ∈
      storages prog := by
  refine List.mem_append_right _ (List.mem_flatten.mpr ⟨_, List.mem_map_of_mem mem, ?_⟩)
  exact List.mem_map.mpr ⟨field, List.mem_filter.mpr ⟨inside, isStatic⟩, rfl⟩

/-- The callable has its symbol, and its types are lowered. -/
structure Declared (prog : Program) (mod : Ir.Module) (sig : Signature) : Prop where
  symbol : (mod.function? sig.symbol).isSome
  type : ∃ loc type, functionType prog loc sig = .ok type

/-- The module has what the program's expressions name. -/
structure Equipped (prog : Program) (mod : Ir.Module) : Prop where
  consistent : prog.Consistent
  plain : prog.Plain
  structs : HasStructs prog mod
  keyed : mod.Keyed
  storages : ∀ storage ∈ storages prog, (mod.globals.get? storage.symbol).isSome ∧
    ∃ lowered, prog.Lowers storage.type lowered
  functions : ∀ entry ∈ allFunctions prog, Declared prog mod (Signature.ofFunction entry.1 entry.2)
  externals : ∀ ext ∈ prog.externals, Declared prog mod (Signature.ofExternal ext)
  malloc : Assigns mod "malloc" mallocType
  free : Assigns mod "free" freeType

namespace Equipped

section
variable (equipped : Equipped prog mod)
include equipped

theorem keep (keeps : mod.Keeps mod') (keyed : mod'.Keyed)
    (malloc : Assigns mod' "malloc" mallocType) (free : Assigns mod' "free" freeType) :
    Equipped prog mod' where
  consistent := equipped.consistent
  plain := equipped.plain
  structs := equipped.structs.congr keeps.structs
  keyed := keyed
  storages storage mem := (equipped.storages storage mem).imp (keeps.globals _) id
  functions entry mem :=
    ⟨keeps.functions _ (equipped.functions entry mem).symbol, (equipped.functions entry mem).type⟩
  externals ext mem := ⟨keeps.functions _ (equipped.externals ext mem).symbol, (equipped.externals ext mem).type⟩
  malloc := malloc
  free := free

theorem addString (text : String) : Equipped prog (mod.addString text).1 :=
  equipped.keep (Ir.Module.Extends.addString mod text).keeps (equipped.keyed.addString text)
    equipped.malloc equipped.free

theorem declare {ty : Ir.FunctionType}
    (routine : sym = "malloc" ∧ ty = mallocType ∨ sym = "free" ∧ ty = freeType) :
    Equipped prog (mod.declare sym ty) := by
  refine equipped.keep (Ir.Module.Extends.declare mod sym ty).keeps equipped.keyed ?_ ?_
  · apply equipped.malloc.declare
    rintro rfl
    simpa using routine
  · apply equipped.free.declare
    rintro rfl
    simpa using routine

theorem aggregate (there : (prog.structure? name).isSome ∨ (prog.class? name).isSome) :
    mod.isSized (.struct name) := by
  apply Option.isSome_iff_exists.mpr
  rcases there with there | there
  · obtain ⟨struct, found⟩ := Option.isSome_iff_exists.mp there
    obtain ⟨_, -, defined⟩ := equipped.structs.structures struct (List.mem_of_find?_eq_some found)
    have named : struct.name = name := by simpa using List.find?_some found
    exact ⟨_, named ▸ defined⟩
  · obtain ⟨cls, found⟩ := Option.isSome_iff_exists.mp there
    obtain ⟨_, -, defined⟩ := equipped.structs.classes cls (List.mem_of_find?_eq_some found)
    have named : cls.name = name := by simpa using List.find?_some found
    exact ⟨_, named ▸ defined⟩

theorem sized {ty : TypeName} {lowered : IrType} (lowers : prog.Lowers ty lowered)
    (solid : lowered ≠ .void) : mod.isSized lowered := by
  obtain ⟨found, classifies, usual, rfl⟩ := lowers.class ⟨prog.file, 0⟩
  cases found with
  | void => contradiction
  | aggregate name => exact equipped.aggregate (Program.classify_denotes classifies).aggregate
  | float ty =>
    cases ty with
    | half | float | double => rfl
    | _ => contradiction
  | bool | integer | pointer | slice => rfl

end

end Equipped

abbrev Carried (s : State) (val : Ir.Value) : Prop := val.Carried s.module s.builder.function

/-- A value that carries the lowered type of its source type. -/
structure Valued (prog : Program) (s : State) (typed : Typed) : Prop where
  lowers : prog.Lowers typed.type typed.value.type
  carried : typed.value.type ≠ .void → Carried s typed.value

structure Suits (prog : Program) (s : State) (val : Ir.Value) (ty : TypeName) : Prop where
  lowers : prog.Lowers ty val.type
  carried : Carried s val

structure Located (prog : Program) (s : State) (addr : Typed) : Prop where
  pointer : addr.value.type = .pointer
  carried : Carried s addr.value
  resolves : ∃ resolved, prog.Resolves addr.type resolved

/-- All code so far is checked, and code may be added. -/
structure Checked (prog : Program) (s : State) : Prop where
  equipped : Equipped prog s.module
  code : s.builder.function.Checked s.module
  current : s.builder.current < s.builder.function.blocks.length
  scope : ∀ var ∈ s.scope.all, Located prog s ⟨var.slot, var.type⟩

structure Leads (prog : Program) (s s' : State) : Prop where
  within : s.builder.function.Within s'.builder.function
  keeps : s.module.Keeps s'.module
  checked : Checked prog s'
  scope : s'.scope = s.scope

variable {s s' s'' : State}

namespace Leads

theorem refl (checked : Checked prog s) : Leads prog s s := ⟨.refl _, .refl _, checked, rfl⟩

theorem trans (first : Leads prog s s') (second : Leads prog s' s'') : Leads prog s s'' where
  within := first.within.trans second.within
  keeps := first.keeps.trans second.keeps
  checked := second.checked
  scope := second.scope.trans first.scope

section
variable (leads : Leads prog s s') {val : Ir.Value} {typed addr : Typed}
include leads

theorem carried (carried : Carried s val) : Carried s' val := carried.mono leads.within leads.keeps

theorem valued (valued : Valued prog s typed) : Valued prog s' typed :=
  ⟨valued.lowers, fun solid => leads.carried (valued.carried solid)⟩

theorem located (located : Located prog s addr) : Located prog s' addr :=
  ⟨located.pointer, leads.carried located.carried, located.resolves⟩

end

end Leads

theorem Suits.valued {ty : TypeName} (suits : Suits prog s val ty) : Valued prog s ⟨val, ty⟩ :=
  ⟨suits.lowers, fun _ => suits.carried⟩

theorem Valued.suits {typed : Typed} {tgt joined : TypeName} (valued : Valued prog s typed)
    (joins : prog.joinInto loc typed.type tgt = .ok (some joined)) :
    Suits prog s typed.value tgt := by
  obtain ⟨solid, lowers⟩ := valued.lowers.joinInto joins
  exact ⟨lowers, valued.carried solid⟩

theorem Valued.pointer {typed : Typed} {resolved : TypeName} (valued : Valued prog s typed)
    (resolves : prog.Resolves typed.type resolved) (addr : resolved.isSpecificPointer) :
    typed.value.type = .pointer ∧ Carried s typed.value := by
  have pointer := valued.lowers.eq_pointer resolves addr
  refine ⟨pointer, valued.carried ?_⟩
  rw [pointer]
  exact nofun

/-! What the builder adds. -/

theorem leads_of_builder (checked : Checked prog s) (code : b.function.Checked s.module)
    (within : s.builder.function.Within b.function)
    (current : b.current < b.function.blocks.length) :
    Leads prog s { s with builder := b } where
  within := within
  keeps := .refl _
  checked := ⟨checked.equipped, code, current, fun var mem =>
    ⟨(checked.scope var mem).pointer, (checked.scope var mem).carried.mono within (.refl _),
      (checked.scope var mem).resolves⟩⟩
  scope := rfl

theorem push_leads (checked : Checked prog s) (next : Nat)
    (new : instr.Checked s.module s.builder.function) :
    Leads prog s { s with builder := s.builder.appended next [instr] } := by
  have within := s.builder.within_appended next [instr]
  refine leads_of_builder checked (Ir.Builder.checked_appended checked.code ?_) within ?_
  · simpa using new
  · exact Nat.lt_of_lt_of_le checked.current within.count

theorem emit_leads (checked : Checked prog s) {ty : IrType} (make : Nat → Instruction)
    (res : (make s.builder.nextRegister).result? = some s.builder.nextRegister)
    (typed : (make s.builder.nextRegister).type = ty) (sized : s.module.isSized ty)
    (operands : ∀ val ∈ (make s.builder.nextRegister).operands, Carried s val)
    (fits : (make s.builder.nextRegister).Fits s.module) :
    Leads prog s (s.built (.emit ty make)) ∧
      Carried (s.built (.emit ty make)) (.register s.builder.nextRegister ty) := by
  have leads : Leads prog s (s.built (.emit ty make)) := by
    apply push_leads checked (s.builder.nextRegister + 1)
    exact ⟨operands, fits, .inr (typed ▸ sized)⟩
  refine ⟨leads, sized, make s.builder.nextRegister, ?_, res, typed⟩
  exact Ir.Builder.mem_code_appended.mpr (.inr ⟨checked.current, List.mem_singleton_self _⟩)

theorem carried_pair (first : Carried s left) (second : Carried s right) :
    ∀ val ∈ [left, right], Carried s val := by
  simpa using ⟨first, second⟩

section
variable (checked : Checked prog s)
include checked

theorem store_leads (stored : Carried s val) (addr : Carried s pointer)
    (isPointer : pointer.type = .pointer) :
    Leads prog s (s.built (.store val pointer)) := by
  apply push_leads checked s.builder.nextRegister
  exact ⟨carried_pair stored addr, ⟨stored.sized, isPointer⟩, .inl rfl⟩

theorem alloca_leads {ty : IrType} (sized : s.module.isSized ty) :
    Leads prog s (s.built (.alloca ty)) ∧
      Carried (s.built (.alloca ty)) (.register s.builder.nextRegister .pointer) := by
  have first : 0 < s.builder.function.blocks.length := Nat.lt_of_le_of_lt (Nat.zero_le _) checked.current
  have within := (s.builder.positioned 0).within_appended (s.builder.nextRegister + 1)
    [.alloca s.builder.nextRegister ty]
  have code : (s.builder.withSlot ty).function.Checked s.module := by
    rw [Ir.Builder.function_withSlot]
    refine Ir.Builder.checked_appended checked.code ?_
    intro instr mem
    obtain rfl := List.mem_singleton.mp mem
    exact ⟨by simp [Instruction.operands], sized, .inr rfl⟩
  have leads : Leads prog s (s.built (.alloca ty)) :=
    leads_of_builder checked code within (Nat.lt_of_lt_of_le checked.current within.count)
  have added : .alloca s.builder.nextRegister ty ∈ ((s.builder.positioned 0).appended (s.builder.nextRegister + 1)
      [.alloca s.builder.nextRegister ty]).function.code :=
    Ir.Builder.mem_code_appended.mpr (.inr ⟨first, List.mem_singleton_self _⟩)
  exact ⟨leads, rfl, .alloca s.builder.nextRegister ty, added, rfl, rfl⟩

theorem terminate_leads (new : term.Checked s.module s.builder.function) :
    Leads prog s (s.built (.terminate term)) := by
  obtain ⟨code, within⟩ := Ir.Builder.checked_terminate checked.code new
  have current : ((Ir.Build.terminate term).run s.builder).2.current = s.builder.current := by
    simp only [Ir.Build.terminate, modify, modifyGet, MonadStateOf.modifyGet, StateT.modifyGet, StateT.run, pure]
    split <;> rfl
  refine leads_of_builder checked code within ?_
  rw [current]
  exact Nat.lt_of_lt_of_le checked.current within.count

theorem branch_leads (tgt : Nat) : Leads prog s (s.built (.branch tgt)) :=
  terminate_leads checked ⟨by simp [Terminator.operands], trivial⟩

theorem appendBlock_leads (run : (build (.appendBlock hint)).run s = .ok (idx, s')) :
    Leads prog s s' ∧ idx < s'.builder.function.blocks.length := by
  obtain ⟨rfl, rfl⟩ := build_ok.mp run
  obtain ⟨label, same⟩ : ∃ label, ((Ir.Build.appendBlock hint).run s.builder).2.function =
      { s.builder.function with blocks := s.builder.function.blocks ++ [{ label }] } := ⟨_, rfl⟩
  obtain ⟨code, within⟩ := checked.code.withBlock label
  rw [← same] at code within
  refine ⟨leads_of_builder checked code within (Nat.lt_of_lt_of_le checked.current within.count), ?_⟩
  change s.builder.function.blocks.length < ((Ir.Build.appendBlock hint).run s.builder).2.function.blocks.length
  rw [same]
  simp

theorem position_leads (small : idx < s.builder.function.blocks.length) :
    Leads prog s (s.built (.position idx)) :=
  leads_of_builder checked checked.code (.refl _) small

theorem withModule_leads (keeps : s.module.Keeps mod)
    (equipped : Equipped prog mod) : Leads prog s { s with module := mod } where
  within := .refl _
  keeps := keeps
  checked := ⟨equipped, checked.code.keep keeps, checked.current, fun var mem =>
    ⟨(checked.scope var mem).pointer, (checked.scope var mem).carried.mono (.refl _) keeps,
      (checked.scope var mem).resolves⟩⟩
  scope := rfl

end

end Lowering
end TernLang
