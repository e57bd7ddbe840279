import TernLang.Proofs.Program.Dependencies
import TernLang.Proofs.Program.Reachable

/-! Declarations by what tells them apart: table, name, parameters and file. A merge offers the
public ones of another program in turn. Whether all of them are taken depends on which are offered
and which are there, and not on their order: one that is new may clash with nothing but itself. -/
namespace TernLang

open List

/-- What a declaration is known by. Only callables are told apart by parameters. -/
structure Key where
  category : Category
  name : String
  params : List TypeName := []
  file : List Path.Component
deriving DecidableEq

/-- A declaration in a table, and whether importers see it. -/
structure Entry extends Key where
  isPublic : Bool

namespace Key

def isCallable (key : Key) : Bool := match key.category with
  | .function | .external => true
  | _ => false

/-- Callables share a name if they differ in their parameters; no other declarations do. -/
def Clashes (a b : Key) : Prop :=
  a.name = b.name ∧ (a.isCallable → b.isCallable → a.params = b.params)

variable {a b : Key}

theorem Clashes.refl (key : Key) : key.Clashes key := ⟨rfl, fun _ _ => rfl⟩

theorem Clashes.symm (clash : a.Clashes b) : b.Clashes a :=
  ⟨clash.1.symm, fun second first => (clash.2 first second).symm⟩

/-- An offered declaration that is new clashes with no other one. -/
def Admits (present offered : List Key) : Prop :=
  ∀ key ∈ offered, key ∉ present → ∀ other ∈ present ++ offered, key.Clashes other → key = other

variable {present present' offered offered' : List Key}

theorem Admits.congr (admits : Admits present offered)
    (there : ∀ key, key ∈ present' ↔ key ∈ present) (here : ∀ key, key ∈ offered' ↔ key ∈ offered) :
    Admits present' offered' := by
  intro key mem new other among clash
  rw [mem_append, there, here, ← mem_append] at among
  exact admits key ((here key).mp mem) (fun old => new ((there key).mpr old)) other among clash

theorem admits_append : Admits present (offered ++ offered') ↔
    Admits present offered ∧ Admits (present ++ offered) offered' := by
  constructor
  · intro admits
    constructor
    · intro key mem new other among clash
      refine admits key (mem_append_left _ mem) new other ?_ clash
      rw [← append_assoc]
      exact mem_append_left _ among
    · intro key mem new other among clash
      rw [append_assoc] at among
      exact admits key (mem_append_right _ mem) (fun old => new (mem_append_left _ old)) other among clash
  · rintro ⟨first, second⟩
    -- Of two that clash and come in this order, the later one is refused.
    have early (key other : Key) (mem : key ∈ offered) (new : key ∉ present)
        (among : other ∈ present ++ (offered ++ offered')) (clash : key.Clashes other) : key = other := by
      by_cases sooner : other ∈ present ++ offered
      · exact first key mem new other sooner clash
      · rw [← append_assoc] at among
        have later : other ∈ offered' := (mem_append.mp among).resolve_left sooner
        have there : key ∈ present ++ offered ++ offered' :=
          mem_append_left _ (mem_append_right _ mem)
        exact (second other later sooner key there clash.symm).symm
    intro key mem new other among clash
    by_cases sooner : key ∈ offered
    · exact early key other sooner new among clash
    · have later : key ∈ offered' := (mem_append.mp mem).resolve_left sooner
      have new : key ∉ present ++ offered := by
        rw [mem_append, not_or]
        exact ⟨new, sooner⟩
      rw [← append_assoc] at among
      exact second key later new other among clash

theorem Admits.nil (present : List Key) : Admits present [] := fun _ mem => absurd mem not_mem_nil

end Key

/-! The tables of a program. -/

@[simp] def Structure.key (struct : Structure) : Key :=
  { category := .struct, name := struct.name, file := struct.origin.components }

@[simp] def Class.key (cls : Class) : Key :=
  { category := .objectClass, name := cls.name, file := cls.origin.components }

@[simp] def Global.key (glob : Global) : Key :=
  { category := .global, name := glob.name, file := glob.origin.components }

@[simp] def Constant.key (const : Constant) : Key :=
  { category := .constant, name := const.name, file := const.origin.components }

@[simp] def Alias.key (entry : Alias) : Key :=
  { category := .typeAlias, name := entry.name, file := entry.origin.components }

@[simp] def Enumeration.key (enum_ : Enumeration) : Key :=
  { category := .enumeration, name := enum_.name, file := enum_.origin.components }

@[simp] def Function.key (fn : Function) : Key :=
  { category := .function, name := fn.name, params := fn.paramTypes, file := fn.origin.components }

@[simp] def External.key (ext : External) : Key :=
  { category := .external, name := ext.name, params := ext.params, file := ext.origin.components }

namespace Program

variable (prog : Program)

def entries : Category → List Entry
  | .struct => prog.structures.map fun s => { s.key with isPublic := s.isPublic }
  | .objectClass => prog.classes.map fun c => { c.key with isPublic := c.isPublic }
  | .global => prog.globals.map fun g => { g.key with isPublic := g.isPublic }
  | .constant => prog.constants.map fun c => { c.key with isPublic := c.isPublic }
  | .typeAlias => prog.aliases.map fun a => { a.key with isPublic := a.isPublic }
  | .enumeration => prog.enums.map fun e => { e.key with isPublic := e.isPublic }
  | .function => prog.functions.map fun f => { f.key with isPublic := f.isPublic }
  | .external => prog.externals.map fun e => { e.key with isPublic := e.isPublic }

def keys : List Key :=
  [.struct, .objectClass, .global, .constant, .typeAlias, .enumeration, .function, .external].flatMap
    fun cat => (prog.entries cat).map (·.toKey)

/-- What an importer is offered, in the order of a merge. A function comes without its body. -/
def offers : List Key :=
  (prog.functions.filter (·.isPublic)).map (fun f => { f.key with category := .external }) ++
  (prog.structures.filter (·.isPublic)).map Structure.key ++
  (prog.classes.filter (·.isPublic)).map Class.key ++
  (prog.externals.filter (·.isPublic)).map External.key ++
  (prog.constants.filter (·.isPublic)).map Constant.key ++
  (prog.globals.filter (·.isPublic)).map Global.key ++
  (prog.aliases.filter (·.isPublic)).map Alias.key ++
  (prog.enums.filter (·.isPublic)).map Enumeration.key

variable {prog after : Program} {key : Key} {cat : Category}

theorem category_of_mem_entries (mem : entry ∈ prog.entries cat) : entry.category = cat := by
  cases cat <;>
  · obtain ⟨item, -, rfl⟩ := mem_map.mp mem
    rfl

theorem mem_keys : key ∈ prog.keys ↔ ∃ entry ∈ prog.entries key.category, entry.toKey = key := by
  simp only [keys, mem_flatMap, mem_map]
  constructor
  · rintro ⟨cat, -, entry, mem, rfl⟩
    rw [category_of_mem_entries mem]
    exact ⟨entry, mem, rfl⟩
  · rintro ⟨entry, mem, same⟩
    refine ⟨key.category, ?_, entry, mem, same⟩
    cases key.category <;> decide

theorem SameTables.entries (same : SameTables prog after) (cat : Category) :
    after.entries cat = prog.entries cat := by
  cases cat <;>
    simp only [Program.entries, same.structures, same.classes, same.globals, same.constants, same.aliases, same.enums,
      same.functions, same.externals]

theorem exists_mem_keys {holds : Key → Prop} : (∃ key ∈ prog.keys, holds key) ↔
    (∃ s ∈ prog.structures, holds s.key) ∨ (∃ c ∈ prog.classes, holds c.key) ∨
    (∃ g ∈ prog.globals, holds g.key) ∨ (∃ c ∈ prog.constants, holds c.key) ∨
    (∃ a ∈ prog.aliases, holds a.key) ∨ (∃ e ∈ prog.enums, holds e.key) ∨
    (∃ f ∈ prog.functions, holds f.key) ∨ ∃ e ∈ prog.externals, holds e.key := by
  simp [keys, entries, or_and_right, exists_or]

theorem mem_valueNames :
    name ∈ prog.valueNames ↔ ∃ key ∈ prog.keys, key.isCallable = false ∧ key.name = name := by
  simp [exists_mem_keys, valueNames, Key.isCallable]

theorem mem_signatures {sig : String × List TypeName} :
    sig ∈ prog.signatures ↔ ∃ key ∈ prog.keys, key.isCallable ∧ (key.name, key.params) = sig := by
  simp [exists_mem_keys, signatures, Key.isCallable, Function.signature, External.signature]

theorem declared?_eq_none_iff (val : key.isCallable = false) :
    prog.declared? key.name = none ↔ ∀ other ∈ prog.keys, ¬ key.Clashes other := by
  rw [declared?_eq_none, mem_valueNames]
  simp only [mem_signatures, Key.Clashes, val, Bool.false_eq_true, false_imp_iff, and_true]
  constructor
  · rintro ⟨noValue, noCallable⟩ other mem same
    cases callable : other.isCallable with
    | false => exact noValue ⟨other, mem, callable, same.symm⟩
    | true => exact noCallable _ ⟨other, mem, callable, rfl⟩ same.symm
  · intro free
    refine ⟨?_, ?_⟩
    · rintro ⟨other, mem, -, same⟩
      exact free other mem same.symm
    · rintro _ ⟨other, mem, -, rfl⟩ same
      exact free other mem same.symm

theorem freeCallable_iff (callable : key.isCallable) :
    (prog.valueNamed? key.name = none ∧ prog.hasFunctionLike key.name key.params = false ∧
      prog.hasExternalLike key.name key.params = false) ↔
        ∀ other ∈ prog.keys, ¬ key.Clashes other := by
  rw [← notMem_signatures, valueNamed?_eq_none, mem_valueNames, mem_signatures]
  constructor
  · rintro ⟨noValue, noCallable⟩ other mem ⟨name, params⟩
    cases also : other.isCallable with
    | false => exact noValue ⟨other, mem, also, name.symm⟩
    | true => exact noCallable ⟨other, mem, also, Prod.ext name.symm (params callable also).symm⟩
  · intro free
    refine ⟨?_, ?_⟩
    · rintro ⟨other, mem, val, name⟩
      exact free other mem ⟨name.symm, fun _ also => absurd also (by simp [val])⟩
    · rintro ⟨other, mem, -, same⟩
      obtain ⟨name, params⟩ := Prod.mk.inj same
      exact free other mem ⟨name.symm, fun _ _ => params.symm⟩

/-! A consistent program does not clash with itself. -/

theorem valueNames_eq (prog : Program) :
    prog.valueNames = (prog.keys.filter (! ·.isCallable)).map (·.name) := by
  simp [keys, entries, valueNames, Key.isCallable, Function.comp_def, filter_map]

theorem signatures_eq (prog : Program) :
    prog.signatures = (prog.keys.filter (·.isCallable)).map fun key => (key.name, key.params) := by
  change (prog.functions.map fun f => (f.name, f.paramTypes)) ++ (prog.externals.map fun e => (e.name, e.params)) = _
  simp [keys, entries, Key.isCallable, Function.comp_def, filter_map]

theorem Consistent.keys_apart (consistent : prog.Consistent) (first : a ∈ prog.keys)
    (second : b ∈ prog.keys) (clash : a.Clashes b) : a = b := by
  have mixed {a b : Key} (first : a ∈ prog.keys) (second : b ∈ prog.keys) (name : a.name = b.name)
      (callable : a.isCallable) (val : b.isCallable = false) : False :=
    consistent.apart _ (mem_signatures.mpr ⟨a, first, callable, rfl⟩) (mem_valueNames.mpr ⟨b, second, val, name.symm⟩)
  have values := consistent.values
  have callables := consistent.callables
  rw [valueNames_eq] at values
  rw [signatures_eq] at callables
  cases left : a.isCallable with
  | false =>
    cases right : b.isCallable with
    | false =>
      exact inj_on_of_nodup_map values (mem_filter.mpr ⟨first, by simp [left]⟩)
        (mem_filter.mpr ⟨second, by simp [right]⟩) clash.1
    | true => exact (mixed second first clash.1.symm right left).elim
  | true =>
    cases right : b.isCallable with
    | false => exact (mixed first second clash.1 left right).elim
    | true =>
      exact inj_on_of_nodup_map callables (mem_filter.mpr ⟨first, left⟩)
        (mem_filter.mpr ⟨second, right⟩) (Prod.ext clash.1 (clash.2 left right))

theorem exists_of_mem_offers (mem : key ∈ prog.offers) : ∃ src ∈ prog.keys,
    key = { src with category := if src.category = .function then .external else src.category } :=
      by
  simp only [offers, mem_append, mem_map, mem_filter] at mem
  rw [exists_mem_keys]
  rcases mem with ((((((⟨f, ⟨mem, -⟩, rfl⟩ | ⟨s, ⟨mem, -⟩, rfl⟩) | ⟨c, ⟨mem, -⟩, rfl⟩) | ⟨e, ⟨mem, -⟩, rfl⟩) |
    ⟨c, ⟨mem, -⟩, rfl⟩) | ⟨g, ⟨mem, -⟩, rfl⟩) | ⟨a, ⟨mem, -⟩, rfl⟩) | ⟨e, ⟨mem, -⟩, rfl⟩
  all_goals grind [Structure.key, Class.key, Global.key, Constant.key, Alias.key, Enumeration.key,
    Function.key, External.key]

theorem Consistent.offers_apart (consistent : prog.Consistent) (first : a ∈ prog.offers)
    (second : b ∈ prog.offers) (clash : a.Clashes b) : a = b := by
  obtain ⟨left, leftMem, rfl⟩ := exists_of_mem_offers first
  obtain ⟨right, rightMem, rfl⟩ := exists_of_mem_offers second
  have callable (src : Key) : Key.isCallable
      { src with category := if src.category = .function then .external else src.category } =
        src.isCallable := by
    unfold Key.isCallable
    cases src.category <;> rfl
  rw [Key.Clashes, callable, callable] at clash
  rw [consistent.keys_apart leftMem rightMem clash]

end Program
end TernLang
