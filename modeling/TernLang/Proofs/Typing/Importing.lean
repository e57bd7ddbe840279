import TernLang.Proofs.Typing.Meaning
import TernLang.Proofs.Typing.Resolution

/-! Types of an importer. A merge gives no new meaning to a name that had one, built-in types apart;
so a type that had a class keeps it, unless new aliases make it one that contains itself. -/
namespace TernLang

open Success List

namespace Program
variable {prog other after : Program} {name : String} {loc : Location}
  {ty shown resolved : TypeName} {found : TypeClass} {isPublic : Bool}

theorem exists_resolve (aliases : ∀ entry ∈ prog.aliases, ∃ resolved,
    prog.resolve loc (.named entry.name) = .ok resolved) (ty : TypeName) :
    ∃ resolved, prog.resolve loc ty = .ok resolved := by
  refine exists_resolve_iff.mpr fun label circles => ?_
  obtain ⟨entry, mem, rfl⟩ := mem_map.mp circles.mem_aliases
  exact exists_resolve_iff.mp (aliases entry mem) _ ⟨⟨_, mem_singleton_self _, .refl⟩, circles.2⟩

theorem Denotes.mono (denotes : prog.Denotes ty found)
    (aliases : ∀ name entry, prog.alias? name = some entry → after.alias? name = some entry)
    (names : ∀ name found, prog.alias? name = none → prog.classifyName? name = some found →
      after.alias? name = none ∧ after.classifyName? name = some found) :
    after.Denotes ty found := by
  induction denotes with
  | pointer tgt => exact .pointer tgt
  | function params res stdcall variadic => exact .function params res stdcall variadic
  | array _ ih => exact .array ih
  | bound known _ ih => exact .bound (aliases _ _ known) ih
  | bare plain known =>
    obtain ⟨still, same⟩ := names _ _ plain known
    exact .bare still same

/-! What a merge does to names. -/

theorem find?_adds {α : Type} {post : α → Prop} {before after : List α} {test : α → Bool} {item : α}
    (adds : Adds post before after) (found : before.find? test = some item) :
    after.find? test = some item := by
  obtain ⟨added, rfl, -⟩ := adds
  rw [find?_append, found, Option.some_or]

def Names (prog : Program) (cat : Category) (name : String) : Prop :=
  ∃ key ∈ prog.keys, key.category = cat ∧ key.name = name

theorem isSome_structure? : (prog.structure? name).isSome ↔ prog.Names .struct name := by
  simp [Names, exists_mem_keys, structure?]

theorem isSome_class? : (prog.class? name).isSome ↔ prog.Names .objectClass name := by
  simp [Names, exists_mem_keys, class?]

theorem isSome_alias? : (prog.alias? name).isSome ↔ prog.Names .typeAlias name := by
  simp [Names, exists_mem_keys, alias?]

theorem isSome_enum? : (prog.enum? name).isSome ↔ prog.Names .enumeration name := by
  simp [Names, exists_mem_keys, enum?]

theorem Names.of_merge (named : after.Names cat name)
    (merges : prog.merge other isPublic = (.ok (), after)) (there : prog.Names taken name)
    (val : cat ≠ .function ∧ cat ≠ .external) :
    prog.Names cat name := by
  obtain ⟨old, oldMem, -, rfl⟩ := there
  obtain ⟨new, newMem, rfl, same⟩ := named
  refine ⟨new, ?_, rfl, same⟩
  by_contra fresh
  have offered := ((merge_extends merges).mem_keys.mp newMem).resolve_left fresh
  have admits := (merge_ok_iff isPublic).mp ⟨after, merges⟩
  have clash : new.Clashes old := by
    refine ⟨same, fun callable => ?_⟩
    unfold Key.isCallable at callable
    split at callable
    · next fn => exact absurd fn val.1
    · next ext => exact absurd ext val.2
    · contradiction
  exact fresh (admits new offered fresh old (mem_append_left _ oldMem) clash ▸ oldMem)

theorem alias?_of_merge (merges : prog.merge other isPublic = (.ok (), after))
    (there : prog.Names taken name) (plain : prog.alias? name = none) :
    after.alias? name = none := by
  rw [← Option.not_isSome_iff_eq_none, isSome_alias?] at plain ⊢
  exact fun named => plain (named.of_merge merges there (by decide))

theorem classifyName?_of_merge (merges : prog.merge other isPublic = (.ok (), after))
    (builtIn : ∀ entry ∈ other.aliases, entry.isPublic → (Primitive.ofName? entry.name).isSome →
      (prog.alias? entry.name).isSome)
    (plain : prog.alias? name = none) (known : prog.classifyName? name = some found) :
    after.alias? name = none ∧ after.classifyName? name = some found := by
  have grows := merge_grows prog other isPublic
  rw [merges] at grows
  rw [classifyName?] at known
  cases primitive : Primitive.ofName? name with
  | some ty =>
    rw [primitive] at known
    refine ⟨?_, by rwa [classifyName?, primitive]⟩
    rw [← Option.not_isSome_iff_eq_none] at plain ⊢
    intro named
    obtain ⟨entry, there⟩ := Option.isSome_iff_exists.mp named
    have same : entry.name = name := by simpa using find?_some there
    rcases grows.aliases.cases (mem_of_find?_eq_some there) with old | ⟨src, mem, exported, rfl⟩
    · exact plain (find?_isSome.mpr ⟨entry, old, by simp [same]⟩)
    · have builtInName : (Primitive.ofName? src.name).isSome := by
        rw [show src.name = name from same, primitive]
        rfl
      exact plain (same ▸ builtIn src mem exported builtInName)
  | none =>
    rw [primitive] at known
    rw [classifyName?, primitive]
    by_cases aggregate : (prog.structure? name).isSome || (prog.class? name).isSome
    · have still : (after.structure? name).isSome || (after.class? name).isSome := by
        simp only [Bool.or_eq_true, Option.isSome_iff_exists] at aggregate ⊢
        exact aggregate.imp (.imp fun _ => find?_adds grows.structures) (.imp fun _ => find?_adds grows.classes)
      simp only [aggregate, still, if_true] at known ⊢
      refine ⟨?_, known⟩
      rcases Bool.or_eq_true_iff.mp aggregate with there | there
      · exact alias?_of_merge merges (isSome_structure?.mp there) plain
      · exact alias?_of_merge merges (isSome_class?.mp there) plain
    · rw [if_neg aggregate] at known
      obtain ⟨enum_, there, rfl⟩ := Option.map_eq_some_iff.mp known
      have named : prog.Names .enumeration name := isSome_enum?.mp (by rw [there]; rfl)
      have still : ¬ ((after.structure? name).isSome || (after.class? name).isSome) := by
        simp only [Bool.or_eq_true, isSome_structure?, isSome_class?] at aggregate ⊢
        exact fun new => aggregate
          (new.imp (·.of_merge merges named (by decide)) (·.of_merge merges named (by decide)))
      refine ⟨alias?_of_merge merges named plain, ?_⟩
      rw [if_neg still, enum?, find?_adds grows.enums there]
      rfl

/-- After a merge a type has the class that it had, or is now recursive; and it is not where all
aliases resolve. New aliases must not rename built-in types, and the aliases together must not have
a cycle that goes through a slice element or a signature, which resolving never leaves. -/
theorem merge_keeps_classes (merges : prog.merge other isPublic = (.ok (), after))
    (builtIn : ∀ entry ∈ other.aliases, entry.isPublic → (Primitive.ofName? entry.name).isSome →
      (prog.alias? entry.name).isSome)
    (classifies : prog.classify loc ty = .ok found) :
    (after.Guarded →
      (after.classify loc ty = .ok found ∧ after.irType loc ty = .ok found.irType) ∨
        ∃ label, after.classify loc ty = .error (.recursiveAlias loc label)) ∧
    ((∀ entry ∈ after.aliases, ∃ resolved, after.resolve loc (.named entry.name) = .ok resolved) →
      after.classify loc ty = .ok found) := by
  have grows := merge_grows prog other isPublic
  rw [merges] at grows
  have denotes := (classify_denotes classifies).mono (fun name entry known => find?_adds grows.aliases known)
    fun name found plain known => classifyName?_of_merge merges builtIn plain known
  have accepts {resolved : TypeName} (resolves : after.resolve loc ty = .ok resolved) :
      after.classify loc ty = .ok found := by
    rw [classify, bind_ok]
    exact ⟨resolved, resolves, denotes.classifyResolved resolves ty⟩
  refine ⟨fun guarded => ?_, fun aliases => ?_⟩
  · cases resolves : after.resolve loc ty with
    | ok resolved =>
      refine .inl ⟨accepts resolves, ?_⟩
      rw [irType, bind_ok]
      exact ⟨found, accepts resolves, rfl⟩
    | error cause =>
      obtain ⟨label, rfl⟩ := guarded.error resolves
      exact .inr ⟨label, by rw [classify, bind_error]; exact .inl resolves⟩
  · obtain ⟨resolved, resolves⟩ := exists_resolve aliases ty
    exact accepts resolves

/-- `public type Size = ulong`. -/
def sizes : Program := ofKinds "sizes.tn" [
  .keyword .visible, .keyword .typeAlias, .word "Size", .operator .assign, .word "ulong", .eof]

/-- Slices of pointers to what only the other program knows, and of an own alias. -/
theorem importer_keeps_slices : ∃ after, importer.merge sizes true = (.ok (), after) ∧
    importer.classify ⟨⟨"main.tn"⟩, 1⟩ (.array (.pointer (.named "Size"))) = .ok .slice ∧
    after.classify ⟨⟨"main.tn"⟩, 1⟩ (.array (.pointer (.named "Size"))) = .ok .slice ∧
    importer.classify ⟨⟨"main.tn"⟩, 1⟩ (.named "T") = .ok (.integer 8 true) ∧
    after.classify ⟨⟨"main.tn"⟩, 1⟩ (.named "T") = .ok (.integer 8 true) := by
  have merges : importer.merge sizes true = (.ok (), (importer.merge sizes true).2) :=
    Prod.ext (ok_of_toOption (by decide +kernel)) rfl
  have builtIn : ∀ entry ∈ sizes.aliases, entry.isPublic → (Primitive.ofName? entry.name).isSome →
      (importer.alias? entry.name).isSome := by decide +kernel
  have resolve : ∀ entry ∈ (importer.merge sizes true).2.aliases,
      ((importer.merge sizes true).2.resolve ⟨⟨"main.tn"⟩, 1⟩
        (.named entry.name)).toOption.isSome := by decide +kernel
  have aliases : ∀ entry ∈ (importer.merge sizes true).2.aliases, ∃ resolved,
      (importer.merge sizes true).2.resolve ⟨⟨"main.tn"⟩, 1⟩ (.named entry.name) = .ok resolved := by
    intro entry mem
    obtain ⟨resolved, given⟩ := Option.isSome_iff_exists.mp (resolve entry mem)
    exact ⟨resolved, ok_of_toOption given⟩
  have slices : importer.classify ⟨⟨"main.tn"⟩, 1⟩ (.array (.pointer (.named "Size"))) = .ok .slice :=
    ok_of_toOption (by decide +kernel)
  have bytes : importer.classify ⟨⟨"main.tn"⟩, 1⟩ (.named "T") = .ok (.integer 8 true) :=
    ok_of_toOption (by decide +kernel)
  exact ⟨_, merges, slices, (merge_keeps_classes merges builtIn slices).2 aliases, bytes,
    (merge_keeps_classes merges builtIn bytes).2 aliases⟩

/-- `public type int = long` and `public type A = *A`. -/
def renames : Program := ofKinds "renames.tn" [
  .keyword .visible, .keyword .typeAlias, .word "int", .operator .assign, .word "long", .newline,
  .keyword .visible, .keyword .typeAlias, .word "A", .operator .assign, .operator .star, .word "A", .eof]

/-- The alias of a built-in type changes the importer's types, and a recursive one takes pointers
away. -/
theorem renames_change_classes : (importer.merge renames true).1.toOption = some () ∧
    (importer.classify ⟨⟨"main.tn"⟩, 1⟩ (.named "int")).toOption = some (.integer 32 true) ∧
    ((importer.merge renames true).2.classify ⟨⟨"main.tn"⟩, 1⟩ (.named "int")).toOption =
      some (.integer 64 true) ∧
    (importer.classify ⟨⟨"main.tn"⟩, 1⟩ (.pointer (.named "A"))).toOption = some .pointer ∧
    ((importer.merge renames true).2.classify ⟨⟨"main.tn"⟩, 1⟩ (.pointer (.named "A"))).toOption =
      none := by
  decide +kernel

end Program
end TernLang
