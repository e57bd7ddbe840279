import TernLang.Proofs.Program.Outcome

/-! What an importer sees of a program. Names are unique, so a merge that succeeds leaves a copy of
every public declaration, unless the importer already had something else of that name and file. -/
namespace TernLang

open List

/-- What two functions with the same place in lowered code share. -/
structure Function.IsCopy (copy src : Function) : Prop where
  name : copy.name = src.name
  params : copy.params = src.params
  result : copy.result = src.result
  isVariadic : copy.isVariadic = src.isVariadic
  isStdcall : copy.isStdcall = src.isStdcall

/-- A callable that stands for a function of another file. -/
structure External.IsCopy (copy : External) (src : Function) : Prop where
  name : copy.name = src.name
  params : copy.params = src.paramTypes
  result : copy.result = src.result
  isMangled : copy.isMangled
  isVariadic : copy.isVariadic = src.isVariadic
  isStdcall : copy.isStdcall = src.isStdcall

structure Structure.IsCopy (copy src : Structure) : Prop where
  name : copy.name = src.name
  members : copy.members = src.members
  isPacked : copy.isPacked = src.isPacked

/-- A class with at least the public methods. -/
structure Class.IsCopy (copy src : Class) : Prop where
  name : copy.name = src.name
  members : copy.members = src.members
  methods : ∀ method ∈ src.methods, method.isPublic → ∃ found ∈ copy.methods, found.IsCopy method

structure Global.IsCopy (copy src : Global) : Prop where
  name : copy.name = src.name
  type : copy.type = src.type

structure Alias.IsCopy (copy src : Alias) : Prop where
  name : copy.name = src.name
  binding : copy.binding = src.binding

structure Enumeration.IsCopy (copy src : Enumeration) : Prop where
  name : copy.name = src.name
  fields : copy.fields = src.fields

theorem Merge.asImported_isCopy (isPublic : Bool) (off : Nat) (cls : Class) :
    (asImported isPublic off cls).IsCopy cls where
  name := rfl
  members := rfl
  methods _ mem exported :=
    ⟨_, mem_map_of_mem (mem_filter.mpr ⟨mem, exported⟩), rfl, rfl, rfl, rfl, rfl⟩

namespace Program

/-- What a program has under the name and from the file of a public declaration is a copy of it. -/
structure Faithful (other prog : Program) : Prop where
  functions : ∀ fn ∈ other.functions, fn.isPublic → ∀ ext ∈ prog.externals, ext.name = fn.name →
    ext.origin.same fn.origin → ext.params = fn.paramTypes → ext.IsCopy fn
  structures : ∀ struct ∈ other.structures, struct.isPublic →
    ∀ found ∈ prog.structures, found.name = struct.name →
    found.origin.same struct.origin → found.IsCopy struct
  classes : ∀ cls ∈ other.classes, cls.isPublic → ∀ found ∈ prog.classes, found.name = cls.name →
    found.origin.same cls.origin → found.IsCopy cls
  globals : ∀ glob ∈ other.globals, glob.isPublic → ∀ found ∈ prog.globals, found.name = glob.name →
    found.origin.same glob.origin → found.IsCopy glob
  aliases : ∀ entry ∈ other.aliases, entry.isPublic →
    ∀ found ∈ prog.aliases, found.name = entry.name →
    found.origin.same entry.origin → found.IsCopy entry
  enums : ∀ enum_ ∈ other.enums, enum_.isPublic → ∀ found ∈ prog.enums, found.name = enum_.name →
    found.origin.same enum_.origin → found.IsCopy enum_

/-- Every public declaration has a copy. -/
structure Copies (other after : Program) : Prop where
  functions : ∀ fn ∈ other.functions, fn.isPublic → ∃ ext ∈ after.externals, ext.IsCopy fn
  structures : ∀ struct ∈ other.structures, struct.isPublic →
    ∃ found ∈ after.structures, found.IsCopy struct
  classes : ∀ cls ∈ other.classes, cls.isPublic → ∃ found ∈ after.classes, found.IsCopy cls
  globals : ∀ glob ∈ other.globals, glob.isPublic → ∃ found ∈ after.globals, found.IsCopy glob
  aliases : ∀ entry ∈ other.aliases, entry.isPublic → ∃ found ∈ after.aliases, found.IsCopy entry
  enums : ∀ enum_ ∈ other.enums, enum_.isPublic → ∃ found ∈ after.enums, found.IsCopy enum_

variable {prog other after : Program} {isPublic : Bool}

/-! Names are unique. -/

namespace Consistent
variable (consistent : prog.Consistent)
include consistent

/-- Over all tables, a name occurs once at most. -/
theorem count_le_one (name : String) :
    (prog.structures.map (·.name)).count name + (prog.classes.map (·.name)).count name +
      (prog.globals.map (·.name)).count name + (prog.constants.map (·.name)).count name +
      (prog.aliases.map (·.name)).count name + (prog.enums.map (·.name)).count name ≤ 1 := by
  have once := nodup_iff_count_le_one.mp consistent.values name
  simp only [valueNames, count_append] at once
  exact once

theorem tables_nodup : (prog.structures.map (·.name)).Nodup ∧ (prog.classes.map (·.name)).Nodup ∧
    (prog.globals.map (·.name)).Nodup ∧ (prog.aliases.map (·.name)).Nodup ∧
    (prog.enums.map (·.name)).Nodup := by
  simp only [nodup_iff_count_le_one, ← forall_and]
  intro name
  have := consistent.count_le_one name
  omega

theorem functions_nodup : (prog.functions.map Function.signature).Nodup :=
  (nodup_append.mp consistent.callables).1

end Consistent

/-- An item whose key is in a table has a copy there, if what was there before is faithful and what
was added copies items of the other table. -/
theorem exists_isCopy {α : Type} {category : Category} {name : α → String} {origin : α → Path} {exported : α → Bool}
    {post : α → Prop} {isCopy : α → α → Prop} {before after items : List α} {item : α} (adds : Adds post before after)
    (distinct : (items.map name).Nodup) (mem : item ∈ items)
    (new : ∀ found, post found → ∃ src ∈ items, name src = name found ∧ isCopy found src)
    (carried : ∃ entry ∈ after.map fun found =>
        (⟨{ category, name := name found, file := (origin found).components }, exported found⟩ : Entry),
      entry.toKey = { category, name := name item, file := (origin item).components })
    (old : ∀ found ∈ before, name found = name item → (origin found).same (origin item) → isCopy found item) :
    ∃ found ∈ after, isCopy found item := by
  obtain ⟨_, listed, same⟩ := carried
  obtain ⟨found, there, rfl⟩ := mem_map.mp listed
  have named : name found = name item := congrArg Key.name same
  refine ⟨found, there, ?_⟩
  rcases adds.cases there with there | added
  · exact old found there named (Path.same_iff.mpr (congrArg Key.file same))
  · obtain ⟨src, there, alike, copy⟩ := new found added
    exact inj_on_of_nodup_map distinct there mem (alike.trans named) ▸ copy

/-- After a merge that succeeds there is a copy of every public declaration. -/
theorem merge_copies (others : other.Consistent) (faithful : Faithful other prog)
    (merges : prog.merge other isPublic = (.ok (), after)) : Copies other after := by
  have carried (key : Key) (mem : key ∈ other.offers) : ∃ entry ∈ after.entries key.category, entry.toKey = key :=
    mem_keys.mp ((merge_extends merges).mem_keys.mpr (.inr mem))
  simp only [offers, mem_append, mem_map, mem_filter] at carried
  have grows : Grows other isPublic prog after := by
    have grows := merge_grows prog other isPublic
    rwa [merges] at grows
  obtain ⟨structures, classes, globals, aliases, enums⟩ := others.tables_nodup
  refine ⟨fun fn mem exported => ?_, fun struct mem exported => ?_, fun cls mem exported => ?_,
    fun glob mem exported => ?_, fun entry mem exported => ?_, fun enum_ mem exported => ?_⟩
  · obtain ⟨_, listed, same⟩ := carried { fn.key with category := .external } (by grind)
    obtain ⟨ext, there, rfl⟩ := mem_map.mp listed
    have name : ext.name = fn.name := congrArg Key.name same
    have params : ext.params = fn.paramTypes := congrArg Key.params same
    refine ⟨ext, there, ?_⟩
    rcases grows.externals.cases there with old | ⟨src, sourceMem, -, rfl⟩ | ⟨src, sourceMem, -, rfl⟩
    · exact faithful.functions fn mem exported ext old name (Path.same_iff.mpr (congrArg Key.file same)) params
    · have same : src = fn :=
        inj_on_of_nodup_map others.functions_nodup sourceMem mem (Prod.ext name params)
      exact same ▸ ⟨rfl, rfl, rfl, rfl, rfl, rfl⟩
    · -- A function and an external of one program differ in their signatures.
      exact absurd (Prod.ext name.symm params.symm) ((nodup_append.mp others.callables).2.2 _
        (mem_map_of_mem mem) _ (mem_map_of_mem sourceMem))
  · refine exists_isCopy grows.structures structures mem ?_ (carried struct.key (by grind))
      (faithful.structures struct mem exported)
    rintro _ ⟨src, there, -, rfl⟩
    exact ⟨src, there, rfl, rfl, rfl, rfl⟩
  · refine exists_isCopy grows.classes classes mem ?_ (carried cls.key (by grind)) (faithful.classes cls mem exported)
    rintro _ ⟨src, there, -, off, rfl⟩
    exact ⟨src, there, rfl, Merge.asImported_isCopy isPublic off src⟩
  · refine exists_isCopy grows.globals globals mem ?_ (carried glob.key (by grind))
      (faithful.globals glob mem exported)
    rintro _ ⟨src, there, -, rfl⟩
    exact ⟨src, there, rfl, rfl, rfl⟩
  · refine exists_isCopy grows.aliases aliases mem ?_ (carried entry.key (by grind))
      (faithful.aliases entry mem exported)
    rintro _ ⟨src, there, -, rfl⟩
    exact ⟨src, there, rfl, rfl, rfl⟩
  · refine exists_isCopy grows.enums enums mem ?_ (carried enum_.key (by grind)) (faithful.enums enum_ mem exported)
    rintro _ ⟨src, there, -, rfl⟩
    exact ⟨src, there, rfl, rfl, rfl⟩

end Program
end TernLang
