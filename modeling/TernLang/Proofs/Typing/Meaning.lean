import TernLang.Proofs.Program.Copies
import TernLang.Proofs.Typing.Classes

/-! What a written type means. Its class depends on the aliases on the way to a name that is none,
and on what that name is. A type that shows nothing but public declarations and built-in types means
the same to an importer. -/
namespace TernLang

open List

theorem find?_name {α : Type} {name : α → String} {items : List α}
    (distinct : (items.map name).Nodup) {item : α} (mem : item ∈ items) :
    items.find? (name · == name item) = some item := by
  cases found : items.find? (name · == name item) with
  | none => exact absurd (beq_self_eq_true (name item)) (find?_eq_none.mp found item mem)
  | some first =>
    have same : name first = name item := by simpa using find?_some found
    rw [inj_on_of_nodup_map distinct (mem_of_find?_eq_some found) mem same]

theorem Enumeration.IsCopy.bits {copy src : Enumeration} (same : copy.IsCopy src) :
    copy.bits = src.bits := by
  have values : copy.values = src.values := congrArg (valuesFrom 0) same.fields
  unfold Enumeration.bits
  rw [values]

namespace Program

variable {prog other after : Program} {name : String} {loc : Location} {ty : TypeName}
  {found meant : TypeClass} {enum_ : Enumeration}

theorem irType_denotes {lowered : IrType} (lowers : prog.irType loc ty = .ok lowered) :
    ∃ found, prog.Denotes ty found ∧ lowered = found.irType := by
  obtain ⟨found, classifies, same⟩ := irType_ok lowers
  exact ⟨found, classify_denotes classifies, same⟩

/-! Names that two programs share. -/

namespace Consistent
variable (consistent : prog.Consistent)
include consistent

theorem alias?_name {entry : Alias} (mem : entry ∈ prog.aliases) :
    prog.alias? entry.name = some entry :=
  find?_name consistent.tables_nodup.2.2.2.1 mem

theorem alias?_eq_none (named : name ∈ prog.structures.map (·.name) ∨
      name ∈ prog.classes.map (·.name) ∨ name ∈ prog.enums.map (·.name)) :
    prog.alias? name = none := by
  have once := consistent.count_le_one name
  simp only [← count_pos_iff] at named
  have never : (prog.aliases.map (·.name)).count name = 0 := by omega
  refine find?_eq_none.mpr fun entry mem same => count_eq_zero.mp never ?_
  exact mem_map.mpr ⟨entry, mem, by simpa using same⟩

end Consistent

/-- A class of types, unless the name is built in. -/
def unlessBuiltIn (name : String) (found : TypeClass) : TypeClass :=
  (Primitive.ofName? name).elim found .ofPrimitive

theorem classifyName?_aggregate
    (named : name ∈ prog.structures.map (·.name) ∨ name ∈ prog.classes.map (·.name)) :
    prog.classifyName? name = some (unlessBuiltIn name (.aggregate name)) := by
  rw [classifyName?, unlessBuiltIn]
  cases Primitive.ofName? name with
  | some primitive => rfl
  | none =>
    have there : ((prog.structure? name).isSome || (prog.class? name).isSome) = true := by
      simpa [structure?, class?, find?_isSome] using named
    simp only [there, if_true, Option.elim_none]

theorem Consistent.classifyName?_enum (consistent : prog.Consistent) (mem : enum_ ∈ prog.enums) :
    prog.classifyName? enum_.name = some (unlessBuiltIn enum_.name (.integer enum_.bits false)) :=
      by
  have once := consistent.count_le_one enum_.name
  have here : 0 < (prog.enums.map (·.name)).count enum_.name := count_pos_iff.mpr (mem_map_of_mem mem)
  have structures : enum_.name ∉ prog.structures.map (·.name) := count_eq_zero.mp (by omega)
  have classes : enum_.name ∉ prog.classes.map (·.name) := count_eq_zero.mp (by omega)
  rw [classifyName?, unlessBuiltIn]
  cases Primitive.ofName? enum_.name with
  | some primitive => rfl
  | none =>
    have absent : ((prog.structure? enum_.name).isSome || (prog.class? enum_.name).isSome) = false := by
      simpa [structure?, class?] using And.intro structures classes
    have itself : prog.enum? enum_.name = some enum_ := find?_name consistent.tables_nodup.2.2.2.2 mem
    simp only [absent, itself, Bool.false_eq_true, if_false, Option.map_some, Option.elim_none]

/-- Types that show nothing but public declarations and built-in types; what stands behind a mark
does not matter. -/
inductive Exposes (prog : Program) : TypeName → Prop where
  | marked {ty : TypeName} : ty.bareName? = none → Exposes prog ty
  | builtIn {name : String} {primitive : Primitive} :
    prog.alias? name = none → Primitive.ofName? name = some primitive → Exposes prog (.named name)
  | ofStructure {struct : Structure} : struct ∈ prog.structures → struct.isPublic →
    Exposes prog (.named struct.name)
  | ofClass {cls : Class} : cls ∈ prog.classes → cls.isPublic → Exposes prog (.named cls.name)
  | ofEnumeration {enum_ : Enumeration} : enum_ ∈ prog.enums → enum_.isPublic →
    Exposes prog (.named enum_.name)
  | ofAlias {entry : Alias} : entry ∈ prog.aliases → entry.isPublic → Exposes prog entry.binding →
    Exposes prog (.named entry.name)

theorem Denotes.eq_of_name (denotes : prog.Denotes (.named name) meant)
    (plain : prog.alias? name = none) (known : prog.classifyName? name = some found) :
    meant = found := by
  cases denotes with
  | bound there => exact nomatch plain.symm.trans there
  | bare _ again =>
    rw [known] at again
    cases again
    rfl

theorem Denotes.of_alias (denotes : prog.Denotes (.named name) meant)
    (known : prog.alias? name = some entry) :
    prog.Denotes entry.binding meant := by
  cases denotes with
  | bound there inner =>
    rw [known] at there
    cases there
    exact inner
  | bare plain => exact nomatch plain.symm.trans known

theorem Consistent.denotes_aggregate (consistent : prog.Consistent)
    (named : name ∈ prog.structures.map (·.name) ∨ name ∈ prog.classes.map (·.name))
    (denotes : prog.Denotes (.named name) meant) : meant = unlessBuiltIn name (.aggregate name) :=
  denotes.eq_of_name (consistent.alias?_eq_none (named.imp_right .inl)) (classifyName?_aggregate named)

theorem Consistent.denotes_enum (consistent : prog.Consistent) (mem : enum_ ∈ prog.enums)
    (denotes : prog.Denotes (.named enum_.name) meant) :
    meant = unlessBuiltIn enum_.name (.integer enum_.bits false) :=
  denotes.eq_of_name (consistent.alias?_eq_none (.inr (.inr (mem_map_of_mem mem))))
    (consistent.classifyName?_enum mem)

/-- Aliases leave the built-in types alone that another program has as such. -/
def Unshadowed (other prog : Program) : Prop :=
  ∀ name primitive, Primitive.ofName? name = some primitive → other.alias? name = none → prog.alias? name = none

/-- An exposed type means the same in a program with copies of the public declarations. -/
theorem Denotes.agree (others : other.Consistent) (afters : after.Consistent)
    (copies : Copies other after) (unshadowed : Unshadowed other after) (exposed : other.Exposes ty)
    {left right : TypeClass} (here : other.Denotes ty left) (there : after.Denotes ty right) :
    left = right := by
  induction exposed with
  | marked marked =>
    cases here with
    | pointer => cases there; rfl
    | function => cases there; rfl
    | array => cases there; rfl
    | bound => contradiction
    | bare => contradiction
  | @builtIn name primitive plain known =>
    have same (prog : Program) : prog.classifyName? name = some (.ofPrimitive primitive) := by
      rw [classifyName?, known]
    rw [here.eq_of_name plain (same other), there.eq_of_name (unshadowed _ _ known plain) (same after)]
  | ofStructure mem exported =>
    obtain ⟨found, foundMem, copy⟩ := copies.structures _ mem exported
    rw [← copy.name] at there
    rw [others.denotes_aggregate (.inl (mem_map_of_mem mem)) here,
      afters.denotes_aggregate (.inl (mem_map_of_mem foundMem)) there, copy.name]
  | ofClass mem exported =>
    obtain ⟨found, foundMem, copy⟩ := copies.classes _ mem exported
    rw [← copy.name] at there
    rw [others.denotes_aggregate (.inr (mem_map_of_mem mem)) here,
      afters.denotes_aggregate (.inr (mem_map_of_mem foundMem)) there, copy.name]
  | ofEnumeration mem exported =>
    obtain ⟨found, foundMem, copy⟩ := copies.enums _ mem exported
    rw [← copy.name] at there
    rw [others.denotes_enum mem here, afters.denotes_enum foundMem there, copy.name, copy.bits]
  | ofAlias mem exported _ ih =>
    obtain ⟨found, foundMem, copy⟩ := copies.aliases _ mem exported
    rw [← copy.name] at there
    have inner := there.of_alias (afters.alias?_name foundMem)
    rw [copy.binding] at inner
    exact ih (here.of_alias (others.alias?_name mem)) inner

end Program
end TernLang
