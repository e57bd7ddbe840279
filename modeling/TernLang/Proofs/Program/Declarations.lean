import Mathlib.Data.List.Nodup
import TernLang.Program

/-! The tables of a program. A name stands for one declaration, only callables share a name, and
these differ in their parameters. A declaration that was checked to be new keeps this. -/
namespace TernLang

open List

def Function.signature (fn : Function) : String × List TypeName := (fn.name, fn.paramTypes)

def External.signature (ext : External) : String × List TypeName := (ext.name, ext.params)

/-- Members are told apart, and every method knows the offset of its class. -/
structure Class.Consistent (cls : Class) (off : Nat) : Prop where
  fields : (cls.members.map (·.name)).Nodup
  methods : (cls.methods.map Function.signature).Nodup
  offsets : ∀ method ∈ cls.methods, method.classOffset = off

namespace Program

variable (prog : Program)

/-- Names of all declarations that cannot be called. -/
def valueNames : List String :=
  prog.structures.map (·.name) ++ prog.classes.map (·.name) ++ prog.globals.map (·.name) ++
    prog.constants.map (·.name) ++ prog.aliases.map (·.name) ++ prog.enums.map (·.name)

/-- What functions and externals are told apart by. -/
def signatures : List (String × List TypeName) :=
  prog.functions.map Function.signature ++ prog.externals.map External.signature

/-- Every name stands for one declaration or for callables that differ in their parameters. -/
structure Consistent (prog : Program) : Prop where
  values : prog.valueNames.Nodup
  apart : ∀ sig ∈ prog.signatures, sig.1 ∉ prog.valueNames
  callables : prog.signatures.Nodup
  classes : ∀ (idx : Nat) (cls : Class), prog.classes[idx]? = some cls → cls.Consistent (idx + 1)
  free : ∀ fn ∈ prog.functions, fn.classOffset = 0

structure SameTables (before after : Program) : Prop where
  file : after.file = before.file
  functions : after.functions = before.functions
  externals : after.externals = before.externals
  structures : after.structures = before.structures
  classes : after.classes = before.classes
  globals : after.globals = before.globals
  constants : after.constants = before.constants
  aliases : after.aliases = before.aliases
  enums : after.enums = before.enums

theorem SameTables.refl : SameTables prog prog :=
  ⟨rfl, rfl, rfl, rfl, rfl, rfl, rfl, rfl, rfl⟩

theorem SameTables.trans {a b c : Program} (first : SameTables a b) (second : SameTables b c) :
    SameTables a c where
  file := second.file.trans first.file
  functions := second.functions.trans first.functions
  externals := second.externals.trans first.externals
  structures := second.structures.trans first.structures
  classes := second.classes.trans first.classes
  globals := second.globals.trans first.globals
  constants := second.constants.trans first.constants
  aliases := second.aliases.trans first.aliases
  enums := second.enums.trans first.enums

theorem SameTables.valueNames {before after : Program} (same : SameTables before after) :
    after.valueNames = before.valueNames := by
  simp only [Program.valueNames, same.structures, same.classes, same.globals, same.constants,
    same.aliases, same.enums]

theorem SameTables.signatures {before after : Program} (same : SameTables before after) :
    after.signatures = before.signatures := by
  simp only [Program.signatures, same.functions, same.externals]

variable {prog after : Program} {name : String} {params : List TypeName}

theorem ite_some_eq_none {α : Type} {cond : Prop} [Decidable cond] {val : α} {rest : Option α} :
    (if cond then some val else rest) = none ↔ ¬ cond ∧ rest = none := by
  split <;> simp_all

theorem valueNamed?_eq_none : prog.valueNamed? name = none ↔ name ∉ prog.valueNames := by
  simp only [valueNamed?, structure?, class?, global?, constant?, alias?, enum?, valueNames, mem_append,
    mem_map, find?_isSome, beq_iff_eq, ite_some_eq_none, not_or, and_true, and_assoc]

theorem hasCallable_eq_false :
    prog.hasCallable name = false ↔ ∀ sig ∈ prog.signatures, sig.1 ≠ name := by
  simp only [hasCallable, hasFunction, hasExternal, signatures, Function.signature, External.signature, mem_append,
    mem_map, Bool.or_eq_false_iff, any_eq_false, beq_iff_eq]
  constructor
  · rintro ⟨fns, externals⟩ sig (⟨fn, mem, rfl⟩ | ⟨ext, mem, rfl⟩)
    · exact fns fn mem
    · exact externals ext mem
  · intro others
    exact ⟨fun fn mem => others _ (.inl ⟨fn, mem, rfl⟩), fun ext mem => others _ (.inr ⟨ext, mem, rfl⟩)⟩

theorem declared?_eq_none : prog.declared? name = none ↔
    name ∉ prog.valueNames ∧ ∀ sig ∈ prog.signatures, sig.1 ≠ name := by
  rw [← valueNamed?_eq_none, ← hasCallable_eq_false, declared?, hasCallable]
  cases prog.valueNamed? name with
  | some cat => simp
  | none => cases prog.hasFunction name <;> cases prog.hasExternal name <;> simp

theorem notMem_signatures : (name, params) ∉ prog.signatures ↔
    prog.hasFunctionLike name params = false ∧ prog.hasExternalLike name params = false := by
  simp only [hasFunctionLike, hasExternalLike, signatures, Function.signature, External.signature, mem_append,
    mem_map, Prod.mk.injEq, any_eq_false, Bool.and_eq_true, beq_iff_eq]
  grind

namespace Consistent

/-- One more name in any of the tables of values. -/
theorem addValue (consistent : prog.Consistent) (free : prog.declared? name = none)
    (signatures : after.signatures = prog.signatures) (fns : after.functions = prog.functions)
    (classes : ∀ (idx : Nat) (cls : Class), after.classes[idx]? = some cls →
      cls.Consistent (idx + 1))
    (counts : ∀ other, after.valueNames.count other = (name :: prog.valueNames).count other := by
      intro other
      simp only [Program.valueNames, List.map_append, List.count_append, List.map_cons,
        List.map_nil, List.count_cons, List.count_nil]
      omega) : after.Consistent := by
  have values := perm_iff_count.mpr counts
  refine ⟨values.nodup_iff.mpr ?_, fun sig mem => ?_, signatures ▸ consistent.callables, classes,
    fns ▸ consistent.free⟩
  · exact nodup_cons.mpr ⟨(declared?_eq_none.mp free).1, consistent.values⟩
  · rw [signatures] at mem
    rw [values.mem_iff, mem_cons, not_or]
    exact ⟨(declared?_eq_none.mp free).2 sig mem, consistent.apart sig mem⟩

theorem addCallable (consistent : prog.Consistent) {sig : String × List TypeName}
    (noValue : prog.valueNamed? sig.1 = none) (new : sig ∉ prog.signatures)
    (values : after.valueNames = prog.valueNames)
    (signatures : after.signatures.Perm (sig :: prog.signatures))
    (classes : after.classes = prog.classes) (free : ∀ fn ∈ after.functions, fn.classOffset = 0) :
    after.Consistent where
  values := values ▸ consistent.values
  apart := by
    intro other mem
    rw [values]
    rcases mem_cons.mp (signatures.mem_iff.mp mem) with rfl | mem
    · exact valueNamed?_eq_none.mp noValue
    · exact consistent.apart other mem
  callables := by
    rw [signatures.nodup_iff]
    exact nodup_cons.mpr ⟨new, consistent.callables⟩
  classes := classes ▸ consistent.classes
  free := free

theorem of_sameTables (consistent : prog.Consistent) (same : SameTables prog after) :
    after.Consistent where
  values := same.valueNames ▸ consistent.values
  apart := same.valueNames ▸ same.signatures ▸ consistent.apart
  callables := same.signatures ▸ consistent.callables
  classes := same.classes ▸ consistent.classes
  free := same.functions ▸ consistent.free

section
variable (consistent : prog.Consistent)
include consistent

theorem addConstant (const : Constant) (free : prog.declared? const.name = none) (nodes : Nat) :
    { prog with nodes, constants := prog.constants ++ [const] }.Consistent :=
  consistent.addValue free rfl rfl consistent.classes

theorem addClass (cls : Class) (free : prog.declared? cls.name = none)
    (inside : cls.Consistent (prog.classes.length + 1)) :
    { prog with classes := prog.classes ++ [cls] }.Consistent := by
  refine consistent.addValue free rfl rfl fun idx other found => ?_
  rcases Nat.lt_trichotomy idx prog.classes.length with less | rfl | more
  · rw [getElem?_append_left less] at found
    exact consistent.classes idx other found
  · rw [getElem?_concat_length] at found
    cases found
    exact inside
  · rw [getElem?_eq_none (by simp only [length_append, length_singleton]; omega)] at found
    contradiction

theorem addFunction (fn : Function) (noValue : prog.valueNamed? fn.name = none)
    (new : (fn.name, fn.paramTypes) ∉ prog.signatures) (off : fn.classOffset = 0) :
    { prog with functions := prog.functions ++ [fn] }.Consistent := by
  refine consistent.addCallable noValue new rfl ?_ rfl fun other mem => ?_
  · simp only [signatures, map_append, append_assoc]
    exact perm_middle
  · rcases mem_append.mp mem with mem | mem
    · exact consistent.free other mem
    · rwa [mem_singleton.mp mem]

theorem addExternal (ext : External) (noValue : prog.valueNamed? ext.name = none)
    (new : (ext.name, ext.params) ∉ prog.signatures) :
    { prog with externals := prog.externals ++ [ext] }.Consistent := by
  refine consistent.addCallable noValue new rfl ?_ rfl consistent.free
  simp only [signatures, map_append, ← append_assoc]
  exact perm_append_singleton ..

end

end Consistent
end Program
end TernLang
