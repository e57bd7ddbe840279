import TernLang.Proofs.Ir.Shape
import TernLang.Proofs.Lowering.Tables
import TernLang.Proofs.Typing.Meaning

/-! What a program and its importer agree on. An importer lowers the types of imported declarations
again, in its own tables; a public declaration whose types are exposed comes out the same. -/
namespace TernLang

open Lowering Signature List

theorem External.IsCopy.signature (same : copy.IsCopy src)
    (tailed : src.isVariadic → src.tail?.isSome) :
    ofExternal copy = ofFunction src none := by
  cases variadic : src.isVariadic with
  | false =>
    have fixed : src.tail? = none := by simp [Function.tail?, variadic]
    simp only [ofExternal, ofFunction, externalParams, same.name, same.params, same.result,
      same.isMangled, same.isVariadic, same.isStdcall, variadic, fixed, Bool.not_false, if_true]
  | true =>
    obtain ⟨elem, tail⟩ := Option.isSome_iff_exists.mp (tailed variadic)
    have last : src.paramTypes.getLast?.bind TypeName.element? = some elem := by
      rw [Function.tail?, if_pos variadic] at tail
      rw [Function.paramTypes, getLast?_map, Option.bind_map]
      exact tail
    simp only [ofExternal, ofFunction, externalParams, same.name, same.params, same.result,
      same.isMangled, same.isVariadic, same.isStdcall, variadic, tail, last, Bool.not_true,
      Bool.false_eq_true, if_true,
      if_false]

theorem Function.IsCopy.signature (same : copy.IsCopy src) (name : into.name = from_.name) :
    ofFunction copy (some into) = ofFunction src (some from_) := by
  simp only [ofFunction, Function.tail?, Function.paramTypes, same.name, same.params, same.result,
    same.isVariadic, same.isStdcall, name]

namespace Program
variable {prog other after : Program} {isPublic : Bool} {ty : TypeName} {types : List TypeName}
  {here there : Location}

def Tailed (prog : Program) : Prop :=
  ∀ fn ∈ prog.functions, fn.isVariadic → fn.tail?.isSome

theorem Tailed.declares (tailed : prog.Tailed) (declares : prog.Declares after) : after.Tailed :=
  fun fn mem => (declares.functions.cases mem).elim (tailed fn) (·.tail)

theorem Reachable.consistent_tailed (reachable : Reachable prog) :
    prog.Consistent ∧ prog.Tailed := by
  apply reachable.keeps
  · intro file
    exact ⟨consistent_fresh file, forall_mem_nil _⟩
  · rintro before after ⟨consistent, tailed⟩ declares
    exact ⟨consistent.declares declares, tailed.declares declares⟩
  · rintro prog other isPublic ⟨consistent, tailed⟩ ⟨others, -⟩
    refine ⟨consistent.merge others isPublic, ?_⟩
    rw [Tailed, (merge_grows prog other isPublic).functions]
    exact tailed

/-- A merge brings no alias for a built-in type that the other program has as such. -/
theorem Grows.unshadowed (grows : Grows other isPublic prog after)
    (unshadowed : Unshadowed other prog) :
    Unshadowed other after := by
  intro name primitive known plain
  refine find?_eq_none.mpr fun entry mem same => ?_
  rcases grows.aliases.cases mem with old | ⟨src, sourceMem, -, rfl⟩
  · exact find?_eq_none.mp (unshadowed name primitive known plain) entry old same
  · exact find?_eq_none.mp plain src sourceMem same

/-- The importer has copies of all public declarations, and the built-in types as they are. -/
structure Sees (other after : Program) : Prop where
  others : other.Consistent
  afters : after.Consistent
  copies : Copies other after
  unshadowed : Unshadowed other after

namespace Sees
variable (sees : Sees other after)
include sees

theorem irType_eq (exposed : other.Exposes ty) {left right : IrType}
    (mine : other.irType here ty = .ok left) (theirs : after.irType there ty = .ok right) :
    left = right := by
  obtain ⟨found, denotes, rfl⟩ := irType_denotes mine
  obtain ⟨again, denotes', rfl⟩ := irType_denotes theirs
  rw [denotes.agree sees.others sees.afters sees.copies sees.unshadowed exposed denotes']

theorem types_eq (exposed : ∀ ty ∈ types, other.Exposes ty) {left right : List IrType}
    (mine : Forall₂ (Solid other here) types left)
    (theirs : Forall₂ (Solid after there) types right) :
    left = right := by
  induction mine generalizing right with
  | nil =>
    cases theirs
    rfl
  | cons first _ ih =>
    obtain ⟨shown, rest⟩ := forall_mem_cons.mp exposed
    cases theirs with
    | cons second later => rw [sees.irType_eq shown first.1 second.1, ih rest later]

theorem functionType_eq
    (exposed : ∀ ty ∈ signature.result :: signature.declaredParams, other.Exposes ty)
    {left right : Ir.FunctionType} (mine : functionType other here signature = .ok left)
    (theirs : functionType after there signature = .ok right) : left = right := by
  obtain ⟨params, res, variadic, stdcall⟩ := functionType_ok mine
  obtain ⟨params', res', variadic', stdcall'⟩ := functionType_ok theirs
  obtain ⟨shown, rest⟩ := forall_mem_cons.mp exposed
  obtain ⟨leftParams, leftResult, leftVariadic, leftStdcall⟩ := left
  obtain ⟨rightParams, rightResult, rightVariadic, rightStdcall⟩ := right
  simp only at params res variadic stdcall params' res' variadic' stdcall'
  rw [sees.types_eq rest params params', sees.irType_eq shown res res', variadic, variadic', stdcall, stdcall']

end Sees

/-! The two modules. -/

def Exports (other : Program) (name : String) : Prop :=
  (∃ struct ∈ other.structures, struct.isPublic ∧ struct.name = name) ∨
    ∃ cls ∈ other.classes, cls.isPublic ∧ cls.name = name

variable {name : String} {found : TypeClass}

theorem structs_unlessBuiltIn (inner : name ∈ (unlessBuiltIn key found).irType.structs) :
    name ∈ found.irType.structs := by
  rw [unlessBuiltIn] at inner
  cases known : Primitive.ofName? key with
  | none =>
    rw [known] at inner
    exact inner
  | some primitive =>
    rw [known] at inner
    cases primitive <;> exact absurd inner not_mem_nil

theorem exports_of_denotes (others : other.Consistent) (exposed : other.Exposes ty)
    (denotes : other.Denotes ty found) (inner : name ∈ found.irType.structs) :
    other.Exports name := by
  induction exposed with
  | marked marked =>
    cases denotes with
    | pointer => exact absurd inner not_mem_nil
    | function => exact absurd inner not_mem_nil
    | array => exact absurd inner not_mem_nil
    | bound => contradiction
    | bare => contradiction
  | @builtIn key primitive plain known =>
    have same : other.classifyName? key = some (.ofPrimitive primitive) := by rw [classifyName?, known]
    rw [denotes.eq_of_name plain same] at inner
    cases primitive <;> exact absurd inner not_mem_nil
  | @ofStructure struct mem exported =>
    rw [others.denotes_aggregate (.inl (mem_map_of_mem mem)) denotes] at inner
    exact .inl ⟨struct, mem, exported, (mem_singleton.mp (structs_unlessBuiltIn inner)).symm⟩
  | @ofClass cls mem exported =>
    rw [others.denotes_aggregate (.inr (mem_map_of_mem mem)) denotes] at inner
    exact .inr ⟨cls, mem, exported, (mem_singleton.mp (structs_unlessBuiltIn inner)).symm⟩
  | ofEnumeration mem exported =>
    rw [others.denotes_enum mem denotes] at inner
    exact absurd (structs_unlessBuiltIn inner) not_mem_nil
  | ofAlias mem exported _ ih => exact ih (denotes.of_alias (others.alias?_name mem))

theorem exports_of_mem (others : other.Consistent) (exposed : ∀ ty ∈ types, other.Exposes ty)
    {fields : List IrType} (lowered : Forall₂ (Solid other here) types fields) {field : IrType}
    (mem : field ∈ fields) (inner : name ∈ field.structs) : other.Exports name := by
  obtain ⟨ty, there, lowers, -⟩ := exists_of_forall₂ lowered.flip field mem
  obtain ⟨found, denotes, rfl⟩ := irType_denotes lowers
  exact exports_of_denotes others (exposed ty there) denotes inner

/-- The symbol is declared with the type, unless callables share it. -/
def Gives (prog : Program) (mod : Ir.Module) (symbol : String) (ty : Ir.FunctionType) : Prop :=
  (callableSymbols prog).count symbol = 1 →
    ∃ fn, mod.function? symbol = some fn ∧ fn.type = ty

/-- The global is declared with the type, unless other storage has its name. -/
def GivesStorage (prog : Program) (mod : Ir.Module) (name : String) (ty : IrType) : Prop :=
  ((storages prog).map (·.symbol)).count name = 1 → ¬Ir.IsTextName name →
    ∃ global, mod.globals.get? name = some global ∧ global.type = ty

/-- Public declarations with exposed types are lowered alike in a program and in its importer. -/
structure Agree (other after : Program) (origin importer : Ir.Module) : Prop where
  structures : ∀ struct ∈ other.structures, struct.isPublic →
    (∀ field ∈ struct.members, other.Exposes field.type) →
    ∃ fields, origin.structs.get? struct.name = some ⟨fields, struct.isPacked⟩ ∧
      importer.structs.get? struct.name = some ⟨fields, struct.isPacked⟩
  classes : ∀ cls ∈ other.classes, cls.isPublic →
    (∀ field ∈ cls.instanceFields, other.Exposes field.type) →
    ∃ fields, origin.structs.get? cls.name = some ⟨fields, false⟩ ∧
      importer.structs.get? cls.name = some ⟨fields, false⟩
  shapes : origin.Stratified → importer.Stratified →
    (∀ struct ∈ other.structures, struct.isPublic →
      ∀ field ∈ struct.members, other.Exposes field.type) →
    (∀ cls ∈ other.classes, cls.isPublic → ∀ field ∈ cls.instanceFields, other.Exposes field.type) →
    ∀ name, other.Exports name → origin.shape (.struct name) = importer.shape (.struct name)
  functions : ∀ fn ∈ other.functions, fn.isPublic →
    (∀ ty ∈ fn.result :: fn.paramTypes, other.Exposes ty) →
    ∃ ext ∈ after.externals, ofExternal ext = ofFunction fn none ∧ ∃ ty,
      functionType other fn.location (ofFunction fn none) = .ok ty ∧
      functionType after ⟨ext.origin, ext.line⟩ (ofExternal ext) = .ok ty ∧
      other.Gives origin (ofFunction fn none).symbol ty ∧
      after.Gives importer (ofFunction fn none).symbol ty
  methods : ∀ cls ∈ other.classes, cls.isPublic → ∀ method ∈ cls.methods, method.isPublic →
    (∀ ty ∈ method.result :: method.paramTypes, other.Exposes ty) →
    ∃ copy ∈ after.classes, ∃ found ∈ copy.methods,
      ofFunction found (some copy) = ofFunction method (some cls) ∧ ∃ ty,
      functionType other method.location (ofFunction method (some cls)) = .ok ty ∧
      functionType after found.location (ofFunction found (some copy)) = .ok ty ∧
      other.Gives origin (ofFunction method (some cls)).symbol ty ∧
      after.Gives importer (ofFunction method (some cls)).symbol ty
  globals : ∀ glob ∈ other.globals, glob.isPublic → other.Exposes glob.type →
    ∃ found ∈ after.globals, found.IsCopy glob ∧ ∃ ty,
      other.irType ⟨glob.origin, glob.line⟩ glob.type = .ok ty ∧
      after.irType ⟨found.origin, found.line⟩ found.type = .ok ty ∧
      other.GivesStorage origin glob.name ty ∧ after.GivesStorage importer glob.name ty

section
variable {origin importer : Ir.Module} {workers workers' : Nat}

section
variable (sees : Sees other after) (lowers : other.lower workers = .ok origin)
  (lowers' : after.lower workers' = .ok importer)
include sees lowers lowers'

theorem Sees.structure_fields (mem : struct ∈ other.structures) (exported : struct.isPublic)
    (exposed : ∀ field ∈ struct.members, other.Exposes field.type) :
    ∃ fields, (∃ loc, Forall₂ (Solid other loc) (struct.members.map (·.type)) fields) ∧
      origin.structs.get? struct.name = some ⟨fields, struct.isPacked⟩ ∧
      importer.structs.get? struct.name = some ⟨fields, struct.isPacked⟩ := by
  obtain ⟨found, foundMem, copy⟩ := sees.copies.structures struct mem exported
  obtain ⟨fields, mine, there⟩ := (lower_hasStructs sees.others lowers).structures struct mem
  obtain ⟨fields', theirs, there'⟩ := (lower_hasStructs sees.afters lowers').structures found foundMem
  rw [copy.members] at theirs
  rw [copy.name, copy.isPacked] at there'
  have exposed : ∀ ty ∈ struct.members.map (·.type), other.Exposes ty := forall_mem_map.mpr exposed
  have same := sees.types_eq exposed (memberTypes_ok mine) (memberTypes_ok theirs)
  exact ⟨fields, ⟨_, memberTypes_ok mine⟩, there, same ▸ there'⟩

theorem Sees.class_fields (mem : cls ∈ other.classes) (exported : cls.isPublic)
    (exposed : ∀ field ∈ cls.instanceFields, other.Exposes field.type) :
    ∃ fields, (∃ loc, Forall₂ (Solid other loc) ((instanceMembers cls).map (·.type)) fields) ∧
      origin.structs.get? cls.name = some ⟨fields, false⟩ ∧
        importer.structs.get? cls.name = some ⟨fields, false⟩ := by
  obtain ⟨found, foundMem, copy⟩ := sees.copies.classes cls mem exported
  obtain ⟨fields, mine, there⟩ := (lower_hasStructs sees.others lowers).classes cls mem
  obtain ⟨fields', theirs, there'⟩ := (lower_hasStructs sees.afters lowers').classes found foundMem
  rw [instanceMembers, Class.instanceFields, copy.members] at theirs
  rw [copy.name] at there'
  have exposed : ∀ ty ∈ (instanceMembers cls).map (·.type), other.Exposes ty :=
    forall_mem_map.mpr (forall_mem_map.mpr exposed)
  have same := sees.types_eq exposed (memberTypes_ok mine) (memberTypes_ok theirs)
  exact ⟨fields, ⟨_, memberTypes_ok mine⟩, there, same ▸ there'⟩

/-- Where every public structure and class has exposed members, so have the structs inside them. -/
theorem Sees.shape_eq (structures : ∀ struct ∈ other.structures, struct.isPublic →
      ∀ field ∈ struct.members, other.Exposes field.type) (classes : ∀ cls ∈ other.classes,
      cls.isPublic → ∀ field ∈ cls.instanceFields, other.Exposes field.type)
    (ranked : origin.Ranked rank) (ranked' : importer.Ranked rank') (named : other.Exports name) :
    origin.shape (.struct name) = importer.shape (.struct name) := by
  induction less : rank name using Nat.strongRecOn generalizing name with
  | ind _ smaller =>
    obtain ⟨types, loc, fields, packed, exposed, lowered, there, there'⟩ : ∃ types loc fields packed,
        (∀ ty ∈ types, other.Exposes ty) ∧ Forall₂ (Solid other loc) types fields ∧
        origin.structs.get? name = some ⟨fields, packed⟩ ∧ importer.structs.get? name = some ⟨fields, packed⟩ := by
      rcases named with ⟨struct, mem, exported, rfl⟩ | ⟨cls, mem, exported, rfl⟩
      · have exposed := structures struct mem exported
        obtain ⟨fields, ⟨loc, lowered⟩, both⟩ := sees.structure_fields lowers lowers' mem exported exposed
        exact ⟨_, loc, fields, _, forall_mem_map.mpr exposed, lowered, both⟩
      · have exposed := classes cls mem exported
        obtain ⟨fields, ⟨loc, lowered⟩, both⟩ := sees.class_fields lowers lowers' mem exported exposed
        have shown : ∀ ty ∈ (instanceMembers cls).map (·.type), other.Exposes ty :=
          forall_mem_map.mpr (forall_mem_map.mpr exposed)
        exact ⟨_, loc, fields, _, shown, lowered, both⟩
    rw [ranked.shape_struct there, ranked'.shape_struct there']
    refine congrArg (Ir.Shape.struct name · packed) (map_congr_left fun field mem => ?_)
    refine Ir.Shape.ofType_congr fun inner within => ?_
    have lower := (ranked name _ there field mem).2 inner within
    exact smaller (rank inner) (less ▸ lower) (exports_of_mem sees.others exposed lowered mem within) rfl

end

theorem Sees.agree (sees : Sees other after) (tailed : other.Tailed)
    (lowers : other.lower workers = .ok origin) (lowers' : after.lower workers' = .ok importer) :
    Agree other after origin importer where
  structures struct mem exported exposed := by
    obtain ⟨fields, -, both⟩ := sees.structure_fields lowers lowers' mem exported exposed
    exact ⟨fields, both⟩
  classes cls mem exported exposed := by
    obtain ⟨fields, -, both⟩ := sees.class_fields lowers lowers' mem exported exposed
    exact ⟨fields, both⟩
  shapes ranked ranked' structures classes name named := by
    obtain ⟨rank, ranked⟩ := ranked
    obtain ⟨_, ranked'⟩ := ranked'
    exact sees.shape_eq lowers lowers' structures classes ranked ranked' named
  functions fn mem exported exposed := by
    obtain ⟨ext, extMem, copy⟩ := sees.copies.functions fn mem exported
    have signature := copy.signature (tailed fn mem)
    obtain ⟨ty, typed, given⟩ := lower_functionType lowers (mem_allFunctions_function mem)
    obtain ⟨ty', typed', given'⟩ := lower_externalType lowers' extMem
    rw [signature] at typed' given'
    rw [← declaredParams_ofFunction fn none] at exposed
    obtain rfl := sees.functionType_eq exposed typed typed'
    exact ⟨ext, extMem, signature, ty, typed, signature ▸ typed', given, given'⟩
  methods cls mem exported method inside visible exposed := by
    obtain ⟨found, foundMem, copy⟩ := sees.copies.classes cls mem exported
    obtain ⟨again, againMem, same⟩ := copy.methods method inside visible
    have signature := same.signature copy.name
    obtain ⟨ty, typed, given⟩ := lower_functionType lowers (mem_allFunctions_method mem inside)
    obtain ⟨ty', typed', given'⟩ := lower_functionType lowers' (mem_allFunctions_method foundMem againMem)
    rw [symbolOf, signature] at given'
    rw [signature] at typed'
    rw [← declaredParams_ofFunction method (some cls)] at exposed
    obtain rfl := sees.functionType_eq exposed typed typed'
    exact ⟨found, foundMem, again, againMem, signature, ty, typed, signature ▸ typed', given, given'⟩
  globals glob mem exported exposed := by
    obtain ⟨found, foundMem, copy⟩ := sees.copies.globals glob mem exported
    obtain ⟨ty, typed, given⟩ := lower_storageType lowers (mem_storages_global mem)
    obtain ⟨ty', typed', given'⟩ := lower_storageType lowers' (mem_storages_global foundMem)
    simp only [copy.name, copy.type] at typed' given'
    obtain rfl := sees.irType_eq exposed typed typed'
    exact ⟨found, foundMem, copy, ty, typed, copy.type ▸ typed', given, given'⟩

/-- After a merge that succeeds, the importer lowers every public declaration with exposed types as
its origin does. -/
theorem merge_agrees (others : Reachable other) (programs : Reachable prog)
    (faithful : Faithful other prog) (unshadowed : Unshadowed other prog)
    (merges : prog.merge other isPublic = (.ok (), after))
    (lowers : other.lower workers = .ok origin) (lowers' : after.lower workers' = .ok importer) :
    Agree other after origin importer := by
  have grows := merge_grows prog other isPublic
  have merged : Reachable (prog.merge other isPublic).2 := .merged isPublic programs others
  rw [merges] at grows merged
  obtain ⟨consistent, tailed⟩ := others.consistent_tailed
  have sees : Sees other after :=
    { others := consistent
      afters := merged.consistent_tailed.1
      copies := merge_copies consistent faithful merges
      unshadowed := grows.unshadowed unshadowed }
  exact sees.agree tailed lowers lowers'

end

/-- `public type T = long` and `public struct S(a T)`. -/
def records : Program := ofKinds "records.tn" [
  .keyword .visible, .keyword .typeAlias, .word "T", .operator .assign, .word "long", .newline,
  .keyword .visible, .keyword .struct, .word "S", .leftParen, .word "a", .word "T", .rightParen, .newline, .eof]

/-- `type U = byte`, which no other file sees. -/
def user : Program :=
  ofKinds "main.tn" [.keyword .typeAlias, .word "U", .operator .assign, .word "byte", .eof]

theorem user_aliases : user.aliases.map (·.name) = ["U"] := by decide +kernel

theorem user_faithful : Faithful records user := by
  have externals : user.externals = [] := by decide +kernel
  have structures : user.structures = [] := by decide +kernel
  have classes : user.classes = [] := length_eq_zero_iff.mp (by decide +kernel)
  have globals : user.globals = [] := by decide +kernel
  have enums : user.enums = [] := by decide +kernel
  constructor
  · simp only [externals, not_mem_nil, false_imp_iff, implies_true]
  · simp only [structures, not_mem_nil, false_imp_iff, implies_true]
  · simp only [classes, not_mem_nil, false_imp_iff, implies_true]
  · simp only [globals, not_mem_nil, false_imp_iff, implies_true]
  · intro entry mem _ found there same
    have mine : entry.name ∈ records.aliases.map (·.name) := mem_map_of_mem mem
    have theirs : found.name ∈ user.aliases.map (·.name) := mem_map_of_mem there
    have names : records.aliases.map (·.name) = ["T"] := by decide +kernel
    rw [names, mem_singleton] at mine
    rw [user_aliases, same, mine] at theirs
    exact absurd theirs (by decide)
  · simp only [enums, not_mem_nil, false_imp_iff, implies_true]

theorem user_unshadowed : Unshadowed records user := by
  intro name primitive known _
  cases found : user.alias? name with
  | none => rfl
  | some entry =>
    have same : entry.name = name := by simpa using find?_some found
    have mem : entry.name ∈ user.aliases.map (·.name) := mem_map_of_mem (mem_of_find?_eq_some found)
    rw [user_aliases, mem_singleton, same] at mem
    have plain : Primitive.ofName? "U" = none := by decide
    rw [mem] at known
    contradiction

theorem exists_ok_of_toOption {ε α : Type} {res : Except ε α} (known : res.toOption.isSome) :
    ∃ val, res = .ok val := by
  obtain ⟨val, given⟩ := Option.isSome_iff_exists.mp known
  exact ⟨val, Success.ok_of_toOption given⟩

/-- The importer's own types do not matter to a member whose type is public. -/
theorem records_agree : ∃ origin importer fields, records.lower 1 = .ok origin ∧
    (user.merge records true).2.lower 1 = .ok importer ∧
      origin.structs.get? "S" = some ⟨fields, false⟩ ∧
    importer.structs.get? "S" = some ⟨fields, false⟩ := by
  have known : (records.lower 1).toOption.isSome := by decide +kernel
  have known' : ((user.merge records true).2.lower 1).toOption.isSome := by decide +kernel
  have merged : (user.merge records true).1.toOption.isSome := by decide +kernel
  obtain ⟨origin, lowers⟩ := exists_ok_of_toOption known
  obtain ⟨importer, lowers'⟩ := exists_ok_of_toOption known'
  obtain ⟨_, merges⟩ := exists_ok_of_toOption merged
  have others : Reachable records := .read _ (.fresh _)
  have merges : user.merge records true = (.ok (), (user.merge records true).2) := Prod.ext merges rfl
  have agree := merge_agrees others (.read _ (.fresh _)) user_faithful user_unshadowed merges lowers lowers'
  obtain ⟨entry, entryMem, name, exported, binding⟩ : ∃ entry ∈ records.aliases,
      entry.name = "T" ∧ entry.isPublic ∧ entry.binding = .named "long" := by decide +kernel
  obtain ⟨struct, mem, named, visible, plain, members⟩ : ∃ struct ∈ records.structures,
      struct.name = "S" ∧ struct.isPublic ∧ struct.isPacked = false ∧ struct.members = [⟨"a", .named "T"⟩] := by
    decide +kernel
  have long : records.Exposes (.named "long") := .builtIn (by decide +kernel) rfl
  have exposed : records.Exposes (.named "T") := by
    rw [← name]
    exact .ofAlias entryMem exported (binding ▸ long)
  obtain ⟨fields, there, there'⟩ := agree.structures struct mem visible
    (by simpa only [members, forall_mem_singleton] using exposed)
  rw [named, plain] at there there'
  exact ⟨origin, importer, fields, lowers, lowers', there, there'⟩

/-- `type T = long` and `public struct S(a T)`. -/
def hidden : Program := ofKinds "records.tn" [
  .keyword .typeAlias, .word "T", .operator .assign, .word "long", .newline,
  .keyword .visible, .keyword .struct, .word "S", .leftParen, .word "a", .word "T", .rightParen, .newline, .eof]

/-- `public struct S(a long)`. -/
def plain : Program := ofKinds "records.tn" [
  .keyword .visible, .keyword .struct, .word "S", .leftParen, .word "a", .word "long", .rightParen, .newline, .eof]

/-- `type long = byte`. -/
def narrow : Program :=
  ofKinds "main.tn" [.keyword .typeAlias, .word "long", .operator .assign, .word "byte", .eof]

/-- An older text of the file: `public struct S(a byte)`. -/
def stale : Program := ofKinds "records.tn" [
  .keyword .visible, .keyword .struct, .word "S", .leftParen, .word "a", .word "byte", .rightParen, .newline, .eof]

/-- Fields of a struct in the lowered program. -/
def loweredFields (prog : Program) (name : String) : Option (List IrType) :=
  ((prog.lower 1).toOption.bind (·.structs.get? name)).map (·.fields)

/-- A name that the importer gives another meaning changes what is imported: a private alias of the
origin, a built-in type, or a declaration of an older text of the file. -/
theorem importer_disagrees :
    ((importer.merge hidden true).1.toOption = some () ∧ hidden.loweredFields "S" = some [.int 64] ∧
      (importer.merge hidden true).2.loweredFields "S" = some [.int 8]) ∧
    ((narrow.merge plain true).1.toOption = some () ∧ plain.loweredFields "S" = some [.int 64] ∧
      (narrow.merge plain true).2.loweredFields "S" = some [.int 8]) ∧
    (stale.merge plain true).1.toOption = some () ∧
      (stale.merge plain true).2.loweredFields "S" = some [.int 8] := by
  decide +kernel

end Program
end TernLang
