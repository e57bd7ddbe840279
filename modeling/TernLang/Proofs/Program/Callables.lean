import TernLang.Proofs.Lowering.Definitions
import TernLang.Proofs.Program.Copies
import TernLang.Proofs.Program.Expressions
import TernLang.Proofs.Typing.Symbols

/-! Callables of programs that come from texts. A symbol tells which callable of a program is meant,
unless it is the entry, and it is never that of a foreign function. What a program has imported
comes from a program that was merged into it, which defines it under the same symbol. -/
namespace TernLang
open Lowering List

/-- What is called by a mangled symbol. -/
inductive Callable where
  | function (function : Function)
  | imported (ext : External)
  | method (owner : Class) (method : Function)

namespace Callable

def signature : Callable → Signature
  | function f => .ofFunction f none
  | imported ext => .ofExternal ext
  | method owner m => .ofFunction m (some owner)

def symbol (callable : Callable) : String := callable.signature.symbol

/-- A free function that is called `main`, here or in the file it is imported from. -/
def isMain : Callable → Bool
  | function f => f.name == "main"
  | imported ext => ext.name == "main"
  | method .. => false

def key : Callable → String × List TypeName
  | function f => f.signature
  | imported ext => ext.signature
  | method owner m => (owner.name ++ "." ++ m.name, m.paramTypes)

def Spelled : Callable → Prop
  | function f => Token.isWord f.name = true ∧ ∀ ty ∈ f.paramTypes, ty.Written
  | imported ext => ext.isMangled ∧ Token.isWord ext.name = true ∧ ∀ ty ∈ ext.params, ty.Written
  | method owner m => Token.isWord owner.name = true ∧ Token.isWord m.name = true ∧ ∀ ty ∈ m.paramTypes, ty.Written

variable {callable a b : Callable}

theorem Spelled.symbol_eq (spelled : callable.Spelled) :
    callable.symbol = mangle callable.key.1 callable.key.2 := by
  cases callable with
  | function f => rfl
  | imported ext => exact if_pos spelled.1
  | method owner m => rfl

theorem Spelled.written (spelled : callable.Spelled) : ∀ ty ∈ callable.key.2, ty.Written := by
  cases callable with
  | function f => exact spelled.2
  | imported ext => exact spelled.2.2
  | method owner m => exact spelled.2.2

theorem Spelled.dollar (spelled : callable.Spelled) : '$' ∉ callable.key.1.toList := by
  have plain {name : String} (word : Token.isWord name = true) : '$' ∉ name.toList :=
    Token.not_mem_of_isWord word (by decide)
  cases callable with
  | function f => exact plain spelled.1
  | imported ext => exact plain spelled.2.1
  | method owner m =>
    simp only [key, String.toList_append, mem_append, not_or]
    exact ⟨⟨plain spelled.1, by decide⟩, plain spelled.2.1⟩

theorem dot_mem_key (owner : Class) (m : Function) : '.' ∈ (method owner m).key.1.toList := by
  simp [key]

theorem Spelled.isMain_iff (spelled : callable.Spelled) :
    callable.isMain ↔ callable.key.1 = "main" := by
  cases callable with
  | function f => exact beq_iff_eq
  | imported ext => exact beq_iff_eq
  | method owner m =>
    refine iff_of_false Bool.false_ne_true fun same => ?_
    have dot := dot_mem_key owner m
    rw [same] at dot
    revert dot
    decide

theorem Spelled.symbol_inj (spelledA : a.Spelled) (spelledB : b.Spelled)
    (same : a.symbol = b.symbol) :
    (a.isMain ∧ b.isMain) ∨ a.key = b.key := by
  rw [spelledA.symbol_eq, spelledB.symbol_eq] at same
  rw [spelledA.isMain_iff, spelledB.isMain_iff]
  exact (mangle_inj spelledA.dollar spelledB.dollar spelledA.written spelledB.written same).imp_right
    fun alike => Prod.ext alike.1 alike.2

theorem Spelled.symbol_eq_main (spelled : callable.Spelled) :
    callable.symbol = "main" ↔ callable.isMain := by
  rw [spelled.isMain_iff, spelled.symbol_eq]
  constructor
  · intro same
    by_contra ordinary
    have dollar := dollar_mem_mangle ordinary callable.key.2
    rw [same] at dollar
    revert dollar
    decide
  · intro same
    rw [mangle, if_pos same, same]

theorem Spelled.symbol_ne (spelled : callable.Spelled) (ordinary : callable.isMain = false)
    (plain : '$' ∉ name.toList) :
    callable.symbol ≠ name := by
  rintro rfl
  apply plain
  rw [spelled.symbol_eq]
  apply dollar_mem_mangle
  rw [Ne, ← spelled.isMain_iff, ordinary]
  exact Bool.false_ne_true

end Callable

namespace Program
variable {prog other after : Program} {parts others : List Program}

def callables (prog : Program) : List Callable :=
  prog.functions.map .function ++ (prog.externals.filter (·.isMangled)).map .imported ++
    prog.classes.flatMap fun cls => cls.methods.map (.method cls)

theorem mem_callables : callable ∈ prog.callables ↔
    (∃ fn ∈ prog.functions, callable = .function fn) ∨
    (∃ ext ∈ prog.externals, ext.isMangled ∧ callable = .imported ext) ∨
    ∃ cls ∈ prog.classes, ∃ method ∈ cls.methods, callable = .method cls method := by
  simp only [callables, mem_append, mem_map, mem_filter, mem_flatMap, or_assoc, and_assoc, eq_comm]

/-! Symbols within one program. -/

theorem qualified_inj (words : ∀ word ∈ [owner, owner', name, name'], Token.isWord word = true)
    (same : owner ++ "." ++ name = owner' ++ "." ++ name') : owner = owner' := by
  have plain (word : String) (mem : word ∈ [owner, owner', name, name']) : '.' ∉ word.toList :=
    Token.not_mem_of_isWord (words word mem) (by decide)
  have split (first second : String) (mem : first ∈ [owner, owner', name, name'])
      (mem' : second ∈ [owner, owner', name, name']) :
      (first ++ "." ++ second).toList.splitOn '.' = [first.toList, second.toList] := by
    have joined : (first ++ "." ++ second).toList = ['.'].intercalate [first.toList, second.toList] := by
      simp [intercalate]
    rw [joined]
    exact splitOn_intercalate '.' (by simpa using ⟨plain first mem, plain second mem'⟩) (cons_ne_nil _ _)
  have parts := split owner name (by simp) (by simp)
  rw [same, split owner' name' (by simp) (by simp)] at parts
  exact (String.toList_inj.mp (cons.inj parts).1).symm

namespace Consistent
variable (consistent : prog.Consistent) (spelled : ∀ callable ∈ prog.callables, callable.Spelled)
include consistent spelled

theorem methodKeys_nodup :
    (prog.classes.flatMap fun cls => cls.methods.map (Callable.key ∘ Callable.method cls)).Nodup :=
      by
  have method {cls : Class} (mem : cls ∈ prog.classes) {m : Function} (inside : m ∈ cls.methods) :
      (Callable.method cls m).Spelled :=
    spelled _ (mem_callables.mpr (.inr (.inr ⟨cls, mem, m, inside, rfl⟩)))
  refine nodup_flatMap.mpr ⟨fun cls mem => ?_, ?_⟩
  · obtain ⟨idx, there⟩ := mem_iff_getElem?.mp mem
    have qualified : cls.methods.map (Callable.key ∘ Callable.method cls) =
        (cls.methods.map Function.signature).map fun key => (cls.name ++ "." ++ key.1, key.2) := by
      rw [map_map]
      rfl
    rw [qualified]
    refine (consistent.classes idx cls there).methods.map ?_
    rintro ⟨name, params⟩ ⟨name', params'⟩ same
    simpa using same
  · refine (pairwise_map.mp consistent.tables_nodup.2.1).imp_of_mem ?_
    intro cls cls' mem mem' differ key here there
    obtain ⟨m, inside, rfl⟩ := mem_map.mp here
    obtain ⟨m', inside', same⟩ := mem_map.mp there
    have first := method mem inside
    have second := method mem' inside'
    refine differ (qualified_inj ?_ (congrArg Prod.fst same).symm)
    simp [first.1, first.2.1, second.1, second.2.1]

/-- Callables differ in their names or parameters. -/
theorem keys_nodup : (prog.callables.map Callable.key).Nodup := by
  simp only [Program.callables, map_append, map_map, map_flatMap]
  refine nodup_append.mpr ⟨?_, consistent.methodKeys_nodup spelled, ?_⟩
  · exact ((Sublist.refl _).append (filter_sublist.map External.signature)).nodup consistent.callables
  · rintro key free _ qualified rfl
    obtain ⟨cls, mem, inside⟩ := mem_flatMap.mp qualified
    obtain ⟨m, -, rfl⟩ := mem_map.mp inside
    have dot := Callable.dot_mem_key cls m
    have plain {name : String} (word : Token.isWord name = true) : '.' ∉ name.toList :=
      Token.not_mem_of_isWord word (by decide)
    rcases mem_append.mp free with free | free
    · obtain ⟨fn, there, same⟩ := mem_map.mp free
      have word := (spelled _ (mem_callables.mpr (.inl ⟨fn, there, rfl⟩))).1
      have same : fn.name = (Callable.method cls m).key.1 := congrArg Prod.fst same
      exact plain word (same ▸ dot)
    · obtain ⟨ext, there, same⟩ := mem_map.mp free
      obtain ⟨there, mangled⟩ := mem_filter.mp there
      have word := (spelled _ (mem_callables.mpr (.inr (.inl ⟨ext, there, mangled, rfl⟩)))).2.1
      have same : ext.name = (Callable.method cls m).key.1 := congrArg Prod.fst same
      exact plain word (same ▸ dot)

/-- Only entries share a symbol. -/
theorem symbols_apart :
    prog.callables.Pairwise fun a b => a.symbol = b.symbol → a.isMain ∧ b.isMain := by
  refine (pairwise_map.mp (consistent.keys_nodup spelled)).imp_of_mem ?_
  intro a b memA memB differ same
  exact ((spelled a memA).symbol_inj (spelled b memB) same).resolve_right differ

end Consistent

/-! Which program defines a symbol. -/

/-- The program has a body for the function or method, which is its own unless it is an entry. -/
def Emits (prog : Program) (fn : Function) (owner : Option Class) : Prop :=
  ∀ workers mod, prog.lower workers = .ok mod →
    HasBody mod (Signature.ofFunction fn owner).symbol ∧
    ((Signature.ofFunction fn owner).symbol ≠ "main" → Defines prog mod fn owner)

def ofEntry : Function × Option Class → Callable
  | (fn, none) => .function fn
  | (method, some cls) => .method cls method

theorem symbolOf_eq (entry : Function × Option Class) :
    symbolOf entry = (ofEntry entry).symbol := by
  obtain ⟨fn, owner⟩ := entry
  cases owner <;> rfl

theorem entries_sublist (prog : Program) :
    ((allFunctions prog).map ofEntry).Sublist prog.callables := by
  have entries : (allFunctions prog).map ofEntry =
      prog.functions.map .function ++ prog.classes.flatMap fun cls => cls.methods.map (.method cls) := by
    simp only [allFunctions, map_append, map_map, map_flatten, flatMap_def, Function.comp_def, ofEntry]
  rw [entries, callables, append_assoc]
  exact (Sublist.refl _).append (sublist_append_right _ _)

variable {fn : Function} {owner : Option Class}

section
variable (consistent : prog.Consistent) (spelled : ∀ callable ∈ prog.callables, callable.Spelled)
include consistent spelled

theorem count_ownSymbols (own : symbol ∈ ownSymbols (allFunctions prog))
    (ordinary : symbol ≠ "main") :
    (ownSymbols (allFunctions prog)).count symbol = 1 := by
  have apart : (allFunctions prog).Pairwise fun a b =>
      symbolOf a = symbolOf b → symbolOf a = "main" := by
    refine (pairwise_map.mp ((consistent.symbols_apart spelled).sublist (entries_sublist prog))).imp_of_mem ?_
    intro a b mem _ shared same
    rw [symbolOf_eq, symbolOf_eq] at same
    have callable := spelled _ ((entries_sublist prog).subset (mem_map_of_mem mem))
    rw [symbolOf_eq]
    exact callable.symbol_eq_main.mpr (shared same).1
  have shared : (ownSymbols (allFunctions prog)).Pairwise fun a b => a = b → a = "main" :=
    pairwise_map.mpr (apart.sublist filter_sublist)
  have distinct : ((ownSymbols (allFunctions prog)).filter (· ≠ "main")).Nodup := by
    refine (shared.filter _).imp_of_mem ?_
    intro a b mem _ shared same
    simpa [shared same] using (mem_filter.mp mem).2
  rw [← count_filter (p := (· ≠ "main")) (by simpa using ordinary)]
  exact count_eq_one_of_mem distinct (mem_filter.mpr ⟨own, by simpa using ordinary⟩)

theorem emits_of_mem (mem : (fn, owner) ∈ allFunctions prog)
    (given : fn.isExternal = false) : prog.Emits fn owner := by
  intro workers mod lowered
  have own : symbolOf (fn, owner) ∈ ownSymbols (allFunctions prog) :=
    mem_map_of_mem (mem_filter.mpr ⟨mem, by simp [given]⟩)
  refine ⟨(lower_bodies lowered).1 own, fun ordinary => ?_⟩
  exact lower_defines_once lowered mem given (count_ownSymbols consistent spelled own ordinary)

end

/-! Programs that come from texts. -/

/-- A program comes from reading texts and merging others, which came about in the same way; the
list has all of these, those merged into them included. Failures count. -/
inductive Composed : List Program → Program → Prop where
  | fresh (file : Path) : Composed [] { file }
  | read {parts : List Program} {prog : Program} {file : Path} {src : String}
    {tokens : List Token} :
    Composed parts prog → Token.tokenize file src = .ok tokens →
      Composed parts (prog.addTokens tokens).1
  | merged {parts others : List Program} {prog other : Program} (isPublic : Bool) :
    Composed parts prog →
    Composed others other → Composed (parts ++ other :: others) (prog.merge other isPublic).2

/-- The function is a public one of a program, which the external stands for. -/
structure Provides (origin : Program) (fn : Function) (ext : External) : Prop where
  file : origin.file = ext.origin
  mem : fn ∈ origin.functions
  spelled : fn.Spelled origin.file
  isPublic : fn.isPublic
  signature : fn.signature = ext.signature

/-- The class is a public one of a program, which the other has some methods of. -/
structure ProvidesClass (origin : Program) (src cls : Class) : Prop where
  file : origin.file = cls.origin
  mem : src ∈ origin.classes
  spelled : src.Spelled origin.file
  isPublic : src.isPublic
  name : src.name = cls.name
  methods : ∀ method ∈ cls.methods, ∃ own ∈ src.methods, own.isPublic ∧
    own.signature = method.signature

theorem Provides.symbol_eq (provides : Provides origin fn ext) (mangled : ext.isMangled) :
    (Signature.ofExternal ext).symbol = (Signature.ofFunction fn none).symbol := by
  obtain ⟨name, params⟩ := Prod.mk.inj provides.signature
  change (if ext.isMangled then mangle ext.name ext.params else ext.name) = mangle fn.name fn.paramTypes
  rw [if_pos mangled, name, params]

theorem ProvidesClass.symbol_eq (provides : ProvidesClass origin src cls)
    (same : own.signature = method.signature) :
    (Signature.ofFunction method (some cls)).symbol =
      (Signature.ofFunction own (some src)).symbol := by
  obtain ⟨name, params⟩ := Prod.mk.inj same
  change mangle (cls.name ++ "." ++ method.name) method.paramTypes =
    mangle (src.name ++ "." ++ own.name) own.paramTypes
  rw [provides.name, name, params]

/-- Everything is read from the file of the program or comes from one of some others. -/
structure Sourced (parts : List Program) (prog : Program) : Prop where
  functions : ∀ fn ∈ prog.functions, fn.Spelled prog.file
  externals : ∀ ext ∈ prog.externals, ext.Spelled ∨ ext.isMangled ∧
    ∃ origin ∈ parts, ∃ fn, Provides origin fn ext
  classes : ∀ cls ∈ prog.classes, cls.Spelled prog.file ∨
    cls.isImported ∧ ∃ origin ∈ parts, ∃ src, ProvidesClass origin src cls

namespace Sourced

theorem gains (sourced : prog.Sourced parts) (gains : prog.Gains after) : after.Sourced parts where
  functions fn mem := by
    rw [gains.file]
    exact (gains.functions.cases mem).elim (sourced.functions fn) id
  externals ext mem := (gains.externals.cases mem).elim (sourced.externals ext) .inl
  classes cls mem := by
    rw [gains.file]
    exact (gains.classes.cases mem).elim (sourced.classes cls) .inl

theorem function_provided (srcs : other.Sourced others) (mem : fn ∈ other.functions)
    (exported : fn.isPublic) (isPublic : Bool) : Provides other fn (Merge.asExternal isPublic fn) :=
  have spelled := srcs.functions fn mem
  ⟨spelled.origin.symm, mem, spelled, exported, rfl⟩

theorem class_provided (srcs : other.Sourced others) (mem : cls ∈ other.classes)
    (exported : cls.isPublic) (isPublic : Bool) (off : Nat) :
    ∃ origin ∈ other :: others, ∃ src,
      ProvidesClass origin src (Merge.asImported isPublic off cls) := by
  have kept (method : Function) (mem : method ∈ (Merge.asImported isPublic off cls).methods) :
      ∃ own ∈ cls.methods, own.isPublic ∧ own.signature = method.signature := by
    obtain ⟨own, listed, rfl⟩ := mem_map.mp mem
    obtain ⟨mem, shown⟩ := mem_filter.mp listed
    exact ⟨own, mem, shown, rfl⟩
  rcases srcs.classes cls mem with spelled | ⟨-, origin, part, src, provides⟩
  · exact ⟨other, mem_cons_self, cls, spelled.origin.symm, mem, spelled, exported, rfl, kept⟩
  · refine ⟨origin, mem_cons_of_mem _ part, src, { provides with methods := fun method mem => ?_ }⟩
    obtain ⟨between, mem, -, same⟩ := kept method mem
    obtain ⟨own, mem, shown, alike⟩ := provides.methods between mem
    exact ⟨own, mem, shown, alike.trans same⟩

theorem merge (sourced : prog.Sourced parts) (srcs : other.Sourced others) (isPublic : Bool) :
    (prog.merge other isPublic).2.Sourced (parts ++ other :: others) := by
  have grows := merge_grows prog other isPublic
  constructor
  · intro fn mem
    rw [grows.file]
    exact sourced.functions fn (grows.functions ▸ mem)
  · intro ext listed
    rcases grows.externals.cases listed with mem | ⟨fn, mem, exported, rfl⟩ | ⟨src, mem, -, rfl⟩
    · refine (sourced.externals ext mem).imp_right ?_
      rintro ⟨mangled, origin, part, rest⟩
      exact ⟨mangled, origin, mem_append_left _ part, rest⟩
    · exact .inr ⟨rfl, other, mem_append_right _ mem_cons_self, fn,
        srcs.function_provided mem exported isPublic⟩
    · rcases srcs.externals src mem with spelled | ⟨mangled, origin, part, fn, provides⟩
      · exact .inl ⟨spelled.name, spelled.isMangled⟩
      · exact .inr ⟨mangled, origin, mem_append_right _ (mem_cons_of_mem _ part), fn, { provides with }⟩
  · intro cls listed
    rw [grows.file]
    rcases grows.classes.cases listed with mem | ⟨src, mem, exported, off, rfl⟩
    · refine (sourced.classes cls mem).imp_right ?_
      rintro ⟨imported, origin, part, rest⟩
      exact ⟨imported, origin, mem_append_left _ part, rest⟩
    · obtain ⟨origin, part, rest⟩ := srcs.class_provided mem exported isPublic off
      exact .inr ⟨rfl, origin, mem_append_right _ part, rest⟩

theorem spelled (sourced : prog.Sourced parts) : ∀ callable ∈ prog.callables, callable.Spelled := by
  intro callable listed
  rcases mem_callables.mp listed with ⟨fn, mem, rfl⟩ | ⟨ext, mem, mangled, rfl⟩ | ⟨cls, mem, method, inside, rfl⟩
  · have spelled := sourced.functions fn mem
    exact ⟨spelled.name, spelled.params⟩
  · rcases sourced.externals ext mem with plain | ⟨-, origin, -, fn, provides⟩
    · rw [plain.isMangled] at mangled
      contradiction
    · obtain ⟨name, params⟩ := Prod.mk.inj provides.signature
      exact ⟨mangled, name ▸ provides.spelled.name, params ▸ provides.spelled.params⟩
  · rcases sourced.classes cls mem with spelled | ⟨-, origin, -, src, provides⟩
    · have own := spelled.methods method inside
      exact ⟨spelled.name, own.name, own.params⟩
    · obtain ⟨own, mem, -, same⟩ := provides.methods method inside
      obtain ⟨name, params⟩ := Prod.mk.inj same
      have spelled := provides.spelled.methods own mem
      exact ⟨provides.name ▸ provides.spelled.name, name ▸ spelled.name, params ▸ spelled.params⟩

end Sourced

namespace Composed

section
variable (composed : Composed parts prog)
include composed

theorem consistent : prog.Consistent := by
  induction composed with
  | fresh file => exact consistent_fresh file
  | read _ _ ih => exact addTokens_keeps (fun _ _ => .declares) _ ih
  | merged isPublic _ _ ih others => exact ih.merge others isPublic

theorem sourced : prog.Sourced parts := by
  induction composed with
  | fresh file => exact ⟨forall_mem_nil _, forall_mem_nil _, forall_mem_nil _⟩
  | read _ scans ih => exact ih.gains (addTokens_gains _ (Token.scan_lexed scans)).1
  | merged isPublic _ _ ih others => exact ih.merge others isPublic

theorem of_mem (mem : other ∈ parts) : ∃ others, Composed others other := by
  induction composed with
  | fresh file => contradiction
  | read _ _ ih => exact ih mem
  | merged isPublic _ given ih others =>
    rcases mem_append.mp mem with mem | mem
    · exact ih mem
    · rcases mem_cons.mp mem with rfl | mem
      · exact ⟨_, given⟩
      · exact others mem

theorem emits (mem : (fn, owner) ∈ allFunctions prog)
    (given : fn.isExternal = false) : prog.Emits fn owner :=
  emits_of_mem composed.consistent composed.sourced.spelled mem given

end

end Composed

/-- Two callables of a program share a symbol only if both are entries; all other symbols are unlike
`main`, `malloc`, `free` and every foreign name; and what was imported is emitted under its symbol
by the program that it comes from. -/
theorem symbols_identify (composed : Composed parts prog) :
    (prog.callables.Pairwise fun a b => a.symbol = b.symbol → a.isMain ∧ b.isMain) ∧
    (∀ callable ∈ prog.callables, (callable.symbol = "main" ↔ callable.isMain) ∧
      (callable.isMain = false → callable.symbol ∉ ["main", "malloc", "free"] ∧
        ∀ others other, Composed others other → ∀ ext ∈ other.externals, ext.isMangled = false →
          callable.symbol ≠ ext.name)) ∧
    (∀ ext ∈ prog.externals, ext.isMangled → ∃ origin ∈ parts, origin.file = ext.origin ∧
      ∃ fn ∈ origin.functions, fn.isPublic ∧ fn.signature = ext.signature ∧
        (Signature.ofExternal ext).symbol = (Signature.ofFunction fn none).symbol ∧
          origin.Emits fn none) ∧
    ∀ cls ∈ prog.classes, cls.isImported → ∃ origin ∈ parts, origin.file = cls.origin ∧
      ∃ src ∈ origin.classes, src.isImported = false ∧ src.isPublic ∧ ∀ method ∈ cls.methods,
        ∃ own ∈ src.methods, own.isPublic ∧ own.signature = method.signature ∧
          (Signature.ofFunction method (some cls)).symbol =
            (Signature.ofFunction own (some src)).symbol ∧
          origin.Emits own (some src) := by
  have sourced := composed.sourced
  refine ⟨composed.consistent.symbols_apart sourced.spelled, fun callable mem => ?_, fun ext mem mangled => ?_,
    fun cls mem imported => ?_⟩
  · have spelled := sourced.spelled callable mem
    refine ⟨spelled.symbol_eq_main, fun ordinary => ⟨?_, fun others other given ext foreign plain => ?_⟩⟩
    · have apart (name : String) (plain : '$' ∉ name.toList) := spelled.symbol_ne ordinary plain
      simp [apart "main" (by decide), apart "malloc" (by decide), apart "free" (by decide)]
    · rcases given.sourced.externals ext foreign with word | ⟨mangled, -⟩
      · exact spelled.symbol_ne ordinary (Token.not_mem_of_isWord word.name (by decide))
      · rw [plain] at mangled
        contradiction
  · rcases sourced.externals ext mem with plain | ⟨-, origin, part, fn, provides⟩
    · rw [plain.isMangled] at mangled
      contradiction
    · obtain ⟨others, given⟩ := composed.of_mem part
      have listed : (fn, none) ∈ Lowering.allFunctions origin := mem_append_left _ (mem_map_of_mem provides.mem)
      exact ⟨origin, part, provides.file, fn, provides.mem, provides.isPublic, provides.signature,
        provides.symbol_eq mangled, given.emits listed provides.spelled.isExternal⟩
  · rcases sourced.classes cls mem with own | ⟨-, origin, part, src, provides⟩
    · rw [own.isImported] at imported
      contradiction
    · obtain ⟨others, given⟩ := composed.of_mem part
      refine ⟨origin, part, provides.file, src, provides.mem, provides.spelled.isImported, provides.isPublic, ?_⟩
      intro method inside
      obtain ⟨own, mem, shown, same⟩ := provides.methods method inside
      have listed : (own, some src) ∈ Lowering.allFunctions origin :=
        mem_append_right _ (mem_flatten.mpr ⟨_, mem_map_of_mem provides.mem, mem_map_of_mem mem⟩)
      exact ⟨own, mem, shown, same, provides.symbol_eq same,
        given.emits listed (provides.spelled.methods own mem).isExternal⟩

def ofText (name src : String) : Program :=
  match Token.tokenize ⟨name⟩ src with
  | .ok tokens => (Program.addTokens { file := ⟨name⟩ } tokens).1
  | .error _ => { file := ⟨name⟩ }

theorem composed_ofText (name src : String) : Composed [] (ofText name src) := by
  unfold ofText
  split
  · next scans => exact .read (.fresh _) scans
  · exact .fresh _

/-- Functions and methods with like names, one of them private. -/
def toolbox : Program := ofText "box.tern"
  "public def area(x int) \x7b\x7d
public def main(x int) \x7b\x7d
public class Box \x7b
 def area() \x7b\x7d
 private def main() \x7b\x7d
 static def main() \x7b\x7d
\x7d"

/-- Functions that share names with imported ones. -/
def drawing : Program := ofText "draw.tern"
  "def area(f def(*int, ...) int, x []int) \x7b\x7d
def main() \x7b\x7d
foreign box()"

theorem drawing_symbols : Composed [toolbox] (drawing.merge toolbox false).2 ∧
    (drawing.merge toolbox false).2.callables.map Callable.symbol =
      ["area$def(*int, ...) int$[]int", "main", "area$int", "main", "Box.area$*Box", "Box.main$"] ∧
    ((drawing.merge toolbox false).2.callables.Pairwise fun a b => a.symbol = b.symbol → a.isMain ∧
      b.isMain) ∧
    ∀ ext ∈ (drawing.merge toolbox false).2.externals, ext.isMangled →
      toolbox.file = ext.origin := by
  have composed : Composed [toolbox] (drawing.merge toolbox false).2 :=
    .merged false (composed_ofText _ _) (composed_ofText _ _)
  obtain ⟨apart, -, origins, -⟩ := symbols_identify composed
  refine ⟨composed, by decide +kernel, apart, fun ext mem mangled => ?_⟩
  obtain ⟨origin, part, file, -⟩ := origins ext mem mangled
  rwa [mem_singleton.mp part] at file

end Program
end TernLang
