import TernLang.Proofs.Batch
import TernLang.Proofs.Lowering.Definitions
import TernLang.Proofs.Program.Copies

/-! The tables of a lowered program: a struct for every structure and class, a global for every
storage, and the type of a symbol that callables share only if they agree on it. -/
namespace TernLang.Lowering

open Success Signature

variable {prog : Program} {mod mod' : Ir.Module}

/-! Structs. -/

theorem lowerStructures_structs (run : lowerStructures prog structures mod = .ok mod') :
    (∀ name, name ∉ structures.map (·.name) → mod'.structs.get? name = mod.structs.get? name) ∧
    ((structures.map (·.name)).Nodup → ∀ struct ∈ structures, ∃ fields,
      memberTypes prog ⟨struct.origin, struct.line⟩ struct.members = .ok fields ∧
      mod'.structs.get? struct.name = some ⟨fields, struct.isPacked⟩) := by
  induction structures generalizing mod with
  | nil =>
    simp only [lowerStructures, pure_ok] at run
    exact run ▸ ⟨fun _ _ => rfl, fun _ => List.forall_mem_nil _⟩
  | cons struct rest ih =>
    simp only [lowerStructures, bind_ok] at run
    obtain ⟨fields, lowers, run⟩ := run
    obtain ⟨kept, defined⟩ := ih run
    refine ⟨fun name others => ?_, fun distinct => ?_⟩
    · obtain ⟨differs, others⟩ := not_or.mp (mt List.mem_cons.mpr others)
      rw [kept name others]
      exact Table.get?_insert_of_ne differs ..
    · obtain ⟨fresh, distinct⟩ := List.nodup_cons.mp distinct
      refine List.forall_mem_cons.mpr ⟨⟨fields, lowers, ?_⟩, defined distinct⟩
      rw [kept _ fresh]
      exact Table.get?_insert_self ..

theorem lowerInstances_structs (run : lowerInstances prog classes mod = .ok mod') :
    (∀ name, name ∉ classes.map (·.name) → mod'.structs.get? name = mod.structs.get? name) ∧
    ((classes.map (·.name)).Nodup → ∀ cls ∈ classes, ∃ fields,
      memberTypes prog ⟨cls.origin, cls.line⟩ (instanceMembers cls) = .ok fields ∧
      mod'.structs.get? cls.name = some ⟨fields, false⟩) := by
  induction classes generalizing mod with
  | nil =>
    simp only [lowerInstances, pure_ok] at run
    exact run ▸ ⟨fun _ _ => rfl, fun _ => List.forall_mem_nil _⟩
  | cons cls rest ih =>
    simp only [lowerInstances, bind_ok] at run
    obtain ⟨fields, lowers, run⟩ := run
    obtain ⟨kept, defined⟩ := ih run
    refine ⟨fun name others => ?_, fun distinct => ?_⟩
    · obtain ⟨differs, others⟩ := not_or.mp (mt List.mem_cons.mpr others)
      rw [kept name others]
      exact Table.get?_insert_of_ne differs ..
    · obtain ⟨fresh, distinct⟩ := List.nodup_cons.mp distinct
      refine List.forall_mem_cons.mpr ⟨⟨fields, lowers, ?_⟩, defined distinct⟩
      rw [kept _ fresh]
      exact Table.get?_insert_self ..

theorem hasStructs_instances (consistent : prog.Consistent)
    (first : lowerStructures prog prog.structures mod = .ok structs)
    (second : lowerInstances prog prog.classes structs = .ok mod') : HasStructs prog mod' := by
  obtain ⟨structures, classes, -⟩ := consistent.tables_nodup
  refine ⟨fun struct mem => ?_, (lowerInstances_structs second).2 classes⟩
  obtain ⟨fields, lowers, found⟩ := (lowerStructures_structs first).2 structures struct mem
  refine ⟨fields, lowers, ?_⟩
  rw [(lowerInstances_structs second).1, found]
  -- A structure and a class differ in their names.
  have once := consistent.count_le_one struct.name
  have here : 0 < (prog.structures.map (·.name)).count struct.name :=
    List.count_pos_iff.mpr (List.mem_map_of_mem mem)
  exact List.count_eq_zero.mp (by omega)

/-! What later steps leave alone. -/

theorem globals_structs (globals : List Ir.Global) (mod : Ir.Module) :
    (globals.foldl (fun m g => { m with globals := m.globals.insert g.name g }) mod).structs =
      mod.structs := by
  induction globals generalizing mod with
  | nil => rfl
  | cons global rest ih => exact ih _

theorem externals_keep (externals : List (String × Ir.FunctionType)) (mod : Ir.Module) :
    (externals.foldl (fun m (symbol, ty) => m.declare symbol ty) mod).structs = mod.structs ∧
    (externals.foldl (fun m (symbol, ty) => m.declare symbol ty) mod).globals = mod.globals := by
  induction externals generalizing mod with
  | nil => exact ⟨rfl, rfl⟩
  | cons ext rest ih => exact ih _

variable {fns : List (Function × Option Class)} {storage : Storage}

theorem declareAll_keeps (run : declareAll prog fns mod = .ok mod') :
    mod'.structs = mod.structs ∧ mod'.globals = mod.globals :=
  declareAll_induct run ⟨rfl, rfl⟩ fun _ _ _ _ _ keeps => keeps

theorem defineAll_keeps (run : defineAll prog fns mod = .ok mod') :
    mod'.structs = mod.structs ∧
      ∀ name, ¬Ir.IsTextName name → mod'.globals.get? name = mod.globals.get? name := by
  refine defineAll_induct run ⟨rfl, fun _ _ => rfl⟩ fun entry _ _ before ty final typed lowers keeps => ?_
  obtain ⟨-, -, -, -, more⟩ := lowerFunction_ssaGraph rfl rfl (functionType_count typed) lowers
  exact ⟨more.structs.trans keeps.1, fun name noText => (more.storage name noText).trans (keeps.2 name noText)⟩

theorem lower_hasStructs (consistent : prog.Consistent) (lowers : prog.lower workers = .ok mod) :
    HasStructs prog mod := by
  obtain ⟨structs, instances, globals, externals, prototypes, first, second, -, -, declares,
      defines⟩ := lower_ok lowers
  refine (hasStructs_instances consistent first second).congr ?_
  rw [(defineAll_keeps defines).1, (declareAll_keeps declares).1, (externals_keep externals _).1, globals_structs]

/-! Globals. -/

theorem lowerStorage_ok (run : lowerStorage prog storage = .ok global) :
    Solid prog storage.location storage.type global.type ∧ global.name = storage.symbol := by
  simp only [lowerStorage, bind_ok] at run
  obtain ⟨ty, lowers, run⟩ := run
  split at run
  · contradiction
  · next solid =>
    cases run
    exact ⟨⟨lowers, solid⟩, rfl⟩

theorem count_cons_eq_one {first key : String} (once : (first :: keys).count key = 1)
    (mem : key ∈ keys) :
    keys.count key = 1 := by
  have some : 0 < keys.count key := List.count_pos_iff.mpr mem
  have more : keys.count key ≤ (first :: keys).count key := List.count_le_count_cons
  omega

theorem globals_get? {storages : List Storage} (lowers : List.Forall₂ (fun storage global =>
      lowerStorage prog storage = .ok global) storages globals) (mod : Ir.Module) :
    (∀ name, name ∉ storages.map (·.symbol) →
      (globals.foldl (fun m g => { m with globals := m.globals.insert g.name g })
        mod).globals.get? name = mod.globals.get? name) ∧
    ∀ storage ∈ storages, (storages.map (·.symbol)).count storage.symbol = 1 → ∃ global,
      lowerStorage prog storage = .ok global ∧
      (globals.foldl (fun m g => { m with globals := m.globals.insert g.name g })
        mod).globals.get? storage.symbol = some global := by
  induction lowers generalizing mod with
  | nil => exact ⟨fun _ _ => rfl, List.forall_mem_nil _⟩
  | @cons storage global storages globals here later ih =>
    obtain ⟨kept, defined⟩ := ih { mod with globals := mod.globals.insert global.name global }
    have named := (lowerStorage_ok here).2
    refine ⟨fun name others => ?_, List.forall_mem_cons.mpr ⟨fun once => ?_, fun other mem once => ?_⟩⟩
    · obtain ⟨differs, others⟩ := not_or.mp (mt List.mem_cons.mpr others)
      rw [List.foldl_cons, kept name others]
      exact Table.get?_insert_of_ne (named ▸ differs) ..
    · rw [List.map_cons, List.count_cons_self] at once
      refine ⟨global, here, ?_⟩
      rw [List.foldl_cons, kept _ (List.count_eq_zero.mp (by omega)), ← named]
      exact Table.get?_insert_self ..
    · exact defined other mem (count_cons_eq_one once (List.mem_map_of_mem mem))

theorem lower_global {workers : Nat} (lowers : prog.lower workers = .ok mod)
    (mem : storage ∈ storages prog)
    (once : ((storages prog).map (·.symbol)).count storage.symbol = 1)
    (noText : ¬Ir.IsTextName storage.symbol) :
    ∃ global, lowerStorage prog storage = .ok global ∧
      mod.globals.get? storage.symbol = some global := by
  obtain ⟨structs, instances, globals, externals, prototypes, -, -, third, -, declares, defines⟩ := lower_ok lowers
  obtain ⟨global, here, found⟩ := (globals_get? (Batch.run_ok third) instances).2 storage mem once
  refine ⟨global, here, ?_⟩
  rw [(defineAll_keeps defines).2 _ noText, (declareAll_keeps declares).2, (externals_keep externals _).2, found]

/-! Symbols of callables. -/

variable {symbol name : String} {ty given : Ir.FunctionType}
  {lowered : List (String × Ir.FunctionType)} {externals : List External} {body : Ir.Function}

theorem Assigns.putFunction (assigns : Assigns mod symbol ty)
    (agrees : body.symbol = symbol → body.type = ty) :
    Assigns (mod.putFunction body) symbol ty := by
  intro fn found
  simp only [Ir.Module.putFunction, Ir.Module.function?, Table.get?_insert] at found
  split at found
  · next same =>
    cases found
    exact agrees same.symm
  · exact assigns fn found

theorem isSome_putFunction (there : (mod.function? symbol).isSome ∨ body.symbol = symbol) :
    ((mod.putFunction body).function? symbol).isSome := by
  simp only [Ir.Module.putFunction, Ir.Module.function?, Table.get?_insert] at there ⊢
  split
  · rfl
  · next differs => exact there.resolve_right (Ne.symm differs)

theorem lowerExternal_ok {res : String × Ir.FunctionType} (run : lowerExternal prog ext = .ok res) :
    res.1 = (ofExternal ext).symbol ∧
      functionType prog ⟨ext.origin, ext.line⟩ (ofExternal ext) = .ok res.2 := by
  simp only [lowerExternal, bind_ok, pure_ok] at run
  obtain ⟨ty, typed, rfl⟩ := run
  exact ⟨rfl, typed⟩

section
variable (lowers : List.Forall₂ (fun ext res => lowerExternal prog ext = .ok res) externals lowered)
include lowers

theorem externals_assign (agree : ∀ ext ∈ externals, (ofExternal ext).symbol = symbol →
      lowerExternal prog ext = .ok (symbol, ty)) (assigns : Assigns mod symbol ty) :
    Assigns (lowered.foldl (fun m (symbol, ty) => m.declare symbol ty) mod) symbol ty := by
  induction lowers generalizing mod with
  | nil => exact assigns
  | @cons ext res externals lowered here later ih =>
    obtain ⟨mine, others⟩ := List.forall_mem_cons.mp agree
    refine ih others (assigns.declare fun same => ?_)
    have both := here.symm.trans (mine ((lowerExternal_ok here).1.symm.trans same))
    exact (Prod.ext_iff.mp (Except.ok.inj both)).2

theorem externals_isSome (there : (mod.function? symbol).isSome ∨
      symbol ∈ externals.map fun ext => (ofExternal ext).symbol) :
    ((lowered.foldl (fun m (symbol, ty) => m.declare symbol ty) mod).function? symbol).isSome := by
  induction lowers generalizing mod with
  | nil => exact there.resolve_right List.not_mem_nil
  | @cons ext res externals lowered here later ih =>
    rw [List.map_cons, List.mem_cons] at there
    apply ih
    rcases there with there | there | there
    · exact .inl (isSome_declare (.inl there))
    · exact .inl (isSome_declare (.inr ((lowerExternal_ok here).1.trans there.symm)))
    · exact .inr there

end

theorem declareAll_assigns (run : declareAll prog fns mod = .ok mod')
    (agree : ∀ entry ∈ fns, symbolOf entry = symbol →
      functionType prog entry.1.location (ofFunction entry.1 entry.2) = .ok ty)
    (assigns : Assigns mod symbol ty) : Assigns mod' symbol ty := by
  refine declareAll_induct run assigns fun entry mem before given typed assigns => assigns.putFunction fun same => ?_
  exact Except.ok.inj (typed.symm.trans (agree entry mem same))

theorem declareAll_isSome (run : declareAll prog fns mod = .ok mod')
    (there : (mod.function? symbol).isSome ∨ symbol ∈ fns.map symbolOf) :
    (mod'.function? symbol).isSome := by
  induction fns generalizing mod with
  | nil =>
    simp only [declareAll, pure_ok] at run
    exact run ▸ there.resolve_right List.not_mem_nil
  | cons entry rest ih =>
    simp only [declareAll, bind_ok] at run
    obtain ⟨given, typed, run⟩ := run
    rw [List.map_cons, List.mem_cons] at there
    apply ih run
    rcases there with there | there | there
    · exact .inl (isSome_putFunction (.inl there))
    · exact .inl (isSome_putFunction (.inr there.symm))
    · exact .inr there

theorem defineAll_assigns (run : defineAll prog fns mod = .ok mod')
    (agree : ∀ entry ∈ fns, symbolOf entry = symbol →
      functionType prog entry.1.location (ofFunction entry.1 entry.2) = .ok ty)
    (there : ∃ fn, mod.function? symbol = some fn ∧ fn.type = ty) :
    ∃ fn, mod'.function? symbol = some fn ∧ fn.type = ty := by
  refine defineAll_induct run there fun entry mem _ before given final typed lowers there => ?_
  obtain ⟨-, -, named, same, more⟩ := lowerFunction_ssaGraph rfl rfl (functionType_count typed) lowers
  simp only [Ir.Module.putFunction, Ir.Module.function?, Table.get?_insert]
  split
  · next here =>
    refine ⟨_, rfl, same.trans (Except.ok.inj (typed.symm.trans (agree entry mem ?_)))⟩
    exact named.symm.trans here.symm
  · obtain ⟨fn, found, ofType⟩ := there
    exact ⟨fn, more.functions symbol fn found, ofType⟩

theorem declareAll_types (run : declareAll prog fns mod = .ok mod') : ∀ entry ∈ fns, ∃ ty,
      functionType prog entry.1.location (ofFunction entry.1 entry.2) = .ok ty := by
  induction fns generalizing mod with
  | nil => exact List.forall_mem_nil _
  | cons entry rest ih =>
    simp only [declareAll, bind_ok] at run
    obtain ⟨ty, typed, run⟩ := run
    exact List.forall_mem_cons.mpr ⟨⟨ty, typed⟩, ih run⟩

def callableSymbols (prog : Program) : List String :=
  prog.externals.map (fun ext => (ofExternal ext).symbol) ++ (allFunctions prog).map symbolOf

theorem lower_symbol (lowers : prog.lower workers = .ok mod) (named : symbol ∈ callableSymbols prog)
    (externals : ∀ ext ∈ prog.externals, (ofExternal ext).symbol = symbol →
      lowerExternal prog ext = .ok (symbol, ty))
    (fns : ∀ entry ∈ allFunctions prog, symbolOf entry = symbol →
      functionType prog entry.1.location (ofFunction entry.1 entry.2) = .ok ty) :
    ∃ fn, mod.function? symbol = some fn ∧ fn.type = ty := by
  obtain ⟨structs, instances, globals, declared, prototypes, first, second, -, fourth, declares,
      defines⟩ := lower_ok lowers
  have start : Assigns (globals.foldl (fun m g => { m with globals := m.globals.insert g.name g }) instances)
      symbol ty := by
    intro fn found
    rw [Ir.Module.function?, globals_functions, (lowerInstances_ok second).1, (lowerStructures_ok first).1] at found
    contradiction
  have assigns := declareAll_assigns declares fns (externals_assign (Batch.run_ok fourth) externals start)
  have there : (prototypes.function? symbol).isSome :=
    declareAll_isSome declares
      ((List.mem_append.mp named).imp_left fun mem => externals_isSome (Batch.run_ok fourth) (.inr mem))
  obtain ⟨fn, found⟩ := Option.isSome_iff_exists.mp there
  exact defineAll_assigns defines fns ⟨fn, found, assigns fn found⟩

theorem eq_of_count {α : Type} {label : α → String} {items : List α}
    (once : (items.map label).count key ≤ 1) {a b : α} (first : a ∈ items) (second : b ∈ items)
    (here : label a = key) (there : label b = key) : a = b := by
  induction items with
  | nil => contradiction
  | cons item items ih =>
    rw [List.map_cons, List.count_cons] at once
    have occurs {c : α} (mem : c ∈ items) (same : label c = key) : 0 < (items.map label).count key :=
      List.count_pos_iff.mpr (same ▸ List.mem_map_of_mem mem)
    rcases List.mem_cons.mp first with rfl | inner <;> rcases List.mem_cons.mp second with rfl | inner'
    · rfl
    · have := occurs inner' there
      simp only [here, beq_self_eq_true, if_true] at once
      omega
    · have := occurs inner here
      simp only [there, beq_self_eq_true, if_true] at once
      omega
    · exact ih (by omega) inner inner'

section
variable {workers : Nat} (lowers : prog.lower workers = .ok mod)
include lowers

theorem lower_functionType {entry : Function × Option Class} (mem : entry ∈ allFunctions prog) :
    ∃ ty, functionType prog entry.1.location (ofFunction entry.1 entry.2) = .ok ty ∧
      ((callableSymbols prog).count (symbolOf entry) = 1 →
        ∃ fn, mod.function? (symbolOf entry) = some fn ∧ fn.type = ty) := by
  obtain ⟨_, _, _, _, _, -, -, -, -, declares, -⟩ := lower_ok lowers
  obtain ⟨ty, typed⟩ := declareAll_types declares entry mem
  refine ⟨ty, typed, fun once => ?_⟩
  have there : symbolOf entry ∈ (allFunctions prog).map symbolOf := List.mem_map_of_mem mem
  have some : 0 < ((allFunctions prog).map symbolOf).count (symbolOf entry) := List.count_pos_iff.mpr there
  rw [callableSymbols, List.count_append] at once
  refine lower_symbol lowers (List.mem_append_right _ there) (fun ext extMem same => ?_) fun other otherMem same => ?_
  · have : 0 < (prog.externals.map fun ext => (ofExternal ext).symbol).count (symbolOf entry) :=
      List.count_pos_iff.mpr (List.mem_map.mpr ⟨ext, extMem, same⟩)
    omega
  · rw [eq_of_count (by omega) otherMem mem same rfl]
    exact typed

theorem lower_externalType {ext : External} (mem : ext ∈ prog.externals) :
    ∃ ty, functionType prog ⟨ext.origin, ext.line⟩ (ofExternal ext) = .ok ty ∧
      ((callableSymbols prog).count (ofExternal ext).symbol = 1 →
        ∃ fn, mod.function? (ofExternal ext).symbol = some fn ∧ fn.type = ty) := by
  obtain ⟨_, _, _, _, _, -, -, -, fourth, -, -⟩ := lower_ok lowers
  obtain ⟨⟨_, ty⟩, here⟩ := Batch.exists_of_run_ok fourth ext mem
  have typed := (lowerExternal_ok here).2
  refine ⟨ty, typed, fun once => ?_⟩
  have there : (ofExternal ext).symbol ∈ prog.externals.map fun ext => (ofExternal ext).symbol :=
    List.mem_map_of_mem mem
  have some := List.count_pos_iff.mpr there
  rw [callableSymbols, List.count_append] at once
  have single : (prog.externals.map fun ext => (ofExternal ext).symbol).count
      (ofExternal ext).symbol ≤ 1 := by omega
  refine lower_symbol lowers (List.mem_append_left _ there) (fun other otherMem same => ?_)
    fun entry entryMem same => ?_
  · rw [eq_of_count single otherMem mem same rfl, lowerExternal]
    simp only [typed]
    rfl
  · have : 0 < ((allFunctions prog).map symbolOf).count (ofExternal ext).symbol :=
      List.count_pos_iff.mpr (List.mem_map.mpr ⟨entry, entryMem, same⟩)
    omega

theorem lower_storageType (mem : storage ∈ storages prog) :
    ∃ ty, prog.irType storage.location storage.type = .ok ty ∧
      (((storages prog).map (·.symbol)).count storage.symbol = 1 → ¬Ir.IsTextName storage.symbol →
        ∃ global, mod.globals.get? storage.symbol = some global ∧ global.type = ty) := by
  obtain ⟨_, _, _, _, _, -, -, third, -, -, -⟩ := lower_ok lowers
  obtain ⟨global, here⟩ := Batch.exists_of_run_ok third storage mem
  refine ⟨global.type, (lowerStorage_ok here).1.1, fun once noText => ?_⟩
  obtain ⟨found, again, there⟩ := lower_global lowers mem once noText
  cases here.symm.trans again
  exact ⟨global, there, rfl⟩

end

end TernLang.Lowering
