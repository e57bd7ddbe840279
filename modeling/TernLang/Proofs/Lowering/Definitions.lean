import TernLang.Proofs.Lowering.Graph

/-! Symbols and bodies. A function with a symbol of its own is what the symbol means in the end. -/
namespace TernLang.Lowering

open Success List

variable {prog : Program} {mod mod' : Ir.Module}

def symbolOf (entry : Function × Option Class) : String :=
  (Signature.ofFunction entry.1 entry.2).symbol

/-- The symbol means the function, lowered from its first block on. -/
def Defines (prog : Program) (mod : Ir.Module) (fn : Function) (owner : Option Class) : Prop :=
  ∃ before ty final, functionType prog fn.location (Signature.ofFunction fn owner) = .ok ty ∧
    (lowerFunction { program := prog, function := fn }).run
      { module := before, builder := .start (Signature.ofFunction fn owner).symbol ty } = .ok ((), final) ∧
    mod.function? (Signature.ofFunction fn owner).symbol = some final.builder.function

def ownSymbols (fns : List (Function × Option Class)) : List String :=
  (fns.filter (! ·.1.isExternal)).map symbolOf

theorem ownSymbols_cons (entry : Function × Option Class) (rest : List (Function × Option Class)) :
    ownSymbols (entry :: rest) =
      if entry.1.isExternal then ownSymbols rest else symbolOf entry :: ownSymbols rest := by
  unfold ownSymbols
  cases given : entry.1.isExternal with
  | true => rw [filter_cons_of_neg (by simp [given]), if_pos rfl]
  | false => rw [filter_cons_of_pos (by simp [given])]; rfl

variable {fns : List (Function × Option Class)} {owner : Option Class} {fn : Function}
  {workers : Nat}

theorem mem_ownSymbols (mem : entry ∈ fns) (given : entry.1.isExternal = false) :
    symbolOf entry ∈ ownSymbols fns :=
  mem_map_of_mem (mem_filter.mpr ⟨mem, by simp [given]⟩)

/-- What is lowered later does not change a body with another symbol. -/
theorem defineAll_kept (other : sym ∉ ownSymbols fns) (there : mod.function? sym = some body)
    (run : defineAll prog fns mod = .ok mod') : mod'.function? sym = some body := by
  refine defineAll_induct run there fun entry mem given before ty final typed lowers there => ?_
  obtain ⟨-, -, named, -, more⟩ := lowerFunction_ssaGraph rfl rfl (functionType_count typed) lowers
  simp only [Ir.Module.putFunction, Ir.Module.function?, Table.get?_insert]
  rw [if_neg]
  · exact more.functions sym body there
  · intro same
    exact other (same.trans named ▸ mem_ownSymbols mem given)

theorem defineAll_defines (once : (ownSymbols fns).count (symbolOf (fn, owner)) = 1)
    (run : defineAll prog fns mod = .ok mod') (mem : (fn, owner) ∈ fns)
    (given : fn.isExternal = false) : Defines prog mod' fn owner := by
  induction fns generalizing mod with
  | nil => contradiction
  | cons entry rest ih =>
    rw [ownSymbols_cons] at once
    rcases defineAll_cons_ok run with ⟨elsewhere, later⟩ | ⟨ty, final, own, typed, lowers, later⟩
    · rw [elsewhere] at once
      rcases mem_cons.mp mem with rfl | mem
      · rw [elsewhere] at given
        contradiction
      · exact ih once later mem
    · rw [own, if_neg Bool.false_ne_true] at once
      rcases mem_cons.mp mem with rfl | mem
      · obtain ⟨-, -, named, -, -⟩ := lowerFunction_ssaGraph rfl rfl (functionType_count typed) lowers
        have fresh : symbolOf (fn, owner) ∉ ownSymbols rest := by
          rw [count_cons_self] at once
          exact count_eq_zero.mp (by omega)
        refine ⟨mod, ty, final, typed, lowers, defineAll_kept fresh ?_ later⟩
        simp only [Ir.Module.putFunction, Ir.Module.function?, Table.get?_insert, named, if_true]
      · have positive := count_pos_iff.mpr (mem_ownSymbols mem given)
        rw [count_cons] at once
        exact ih (by split at once <;> omega) later mem

theorem lower_defines_once (lowered : prog.lower workers = .ok mod)
    (mem : (fn, owner) ∈ allFunctions prog) (given : fn.isExternal = false)
    (once : (ownSymbols (allFunctions prog)).count (symbolOf (fn, owner)) = 1) :
    Defines prog mod fn owner := by
  obtain ⟨_, _, _, _, _, -, -, -, -, -, defines⟩ := lower_ok lowered
  exact defineAll_defines once defines mem given

theorem lower_defines (lowered : prog.lower workers = .ok mod)
    (distinct : ((allFunctions prog).map symbolOf).Nodup) (mem : (fn, owner) ∈ allFunctions prog)
    (given : fn.isExternal = false) : Defines prog mod fn owner := by
  refine lower_defines_once lowered mem given (count_eq_one_of_mem ?_ ?_)
  · exact (filter_sublist.map symbolOf).nodup distinct
  · exact mem_ownSymbols mem given

/-! Which symbols have a body at all. -/

def HasBody (mod : Ir.Module) (sym : String) : Prop :=
  ∃ body, mod.function? sym = some body ∧ body.isDeclaration = false ∧ body.internal = false

def Bodiless (mod : Ir.Module) (sym : String) : Prop :=
  ∀ body, mod.function? sym = some body → body.isDeclaration

variable {sym : String}

theorem HasBody.extend (has : HasBody mod sym) (more : mod.Extends mod') : HasBody mod' sym := by
  obtain ⟨body, found, given⟩ := has
  exact ⟨body, more.functions sym body found, given⟩

theorem HasBody.putFunction {fn : Ir.Function} (has : HasBody mod sym ∨ fn.symbol = sym)
    (given : fn.isDeclaration = false) (visible : fn.internal = false) :
    HasBody (mod.putFunction fn) sym := by
  by_cases same : sym = fn.symbol
  · refine ⟨fn, ?_, given, visible⟩
    simp only [Ir.Module.putFunction, Ir.Module.function?, Table.get?_insert, if_pos same]
  · obtain ⟨body, found, rest⟩ := has.resolve_right (Ne.symm same)
    refine ⟨body, ?_, rest⟩
    simpa only [Ir.Module.putFunction, Ir.Module.function?, Table.get?_insert, if_neg same] using found

theorem Bodiless.extend (none : Bodiless mod sym) (more : mod.Extends mod') :
    Bodiless mod' sym := by
  intro body found
  rcases more.bodies sym body found with old | declared
  · exact none body old
  · exact declared

theorem Bodiless.putFunction (none : Bodiless mod sym) {fn : Ir.Function}
    (harmless : fn.isDeclaration ∨ fn.symbol ≠ sym) : Bodiless (mod.putFunction fn) sym := by
  intro body found
  simp only [Ir.Module.putFunction, Ir.Module.function?, Table.get?_insert] at found
  split at found
  · next same =>
    cases found
    exact harmless.resolve_right fun other => other same.symm
  · exact none body found

theorem declareAll_bodiless (none : Bodiless mod sym) (run : declareAll prog fns mod = .ok mod') :
    Bodiless mod' sym :=
  declareAll_induct run none fun _ _ _ _ _ none => none.putFunction (.inl rfl)

theorem externals_bodiless (externals : List (String × Ir.FunctionType)) (none : Bodiless mod sym) :
    Bodiless (externals.foldl (fun m (sym, ty) => m.declare sym ty) mod) sym := by
  induction externals generalizing mod with
  | nil => exact none
  | cons ext rest ih => exact ih (none.extend (.declare ..))

/-- A symbol has a body in the end if it had one or a function with it is lowered. -/
theorem defineAll_hasBody (run : defineAll prog fns mod = .ok mod')
    (given : HasBody mod sym ∨ sym ∈ ownSymbols fns) : HasBody mod' sym := by
  induction fns generalizing mod with
  | nil =>
    simp only [defineAll, pure_ok] at run
    exact run ▸ given.resolve_right not_mem_nil
  | cons entry rest ih =>
    rw [ownSymbols_cons] at given
    rcases defineAll_cons_ok run with ⟨elsewhere, run⟩ | ⟨ty, final, own, typed, lowers, run⟩
    · rw [elsewhere] at given
      exact ih run given
    · rw [own, if_neg Bool.false_ne_true, mem_cons] at given
      obtain ⟨graph, -, named, -, more⟩ := lowerFunction_ssaGraph rfl rfl (functionType_count typed) lowers
      have visible := lowerFunction_internal rfl rfl (functionType_count typed) lowers
      apply ih run
      rcases given with has | same | later
      · exact .inl (.putFunction (.inl (has.extend more)) graph.isDeclaration visible)
      · exact .inl (.putFunction (.inr (named.trans same.symm)) graph.isDeclaration visible)
      · exact .inr later

theorem defineAll_bodiless (none : Bodiless mod sym) (other : sym ∉ ownSymbols fns)
    (run : defineAll prog fns mod = .ok mod') : Bodiless mod' sym := by
  refine defineAll_induct run none fun entry mem given before ty final typed lowers none => ?_
  obtain ⟨-, -, named, -, more⟩ := lowerFunction_ssaGraph rfl rfl (functionType_count typed) lowers
  refine (none.extend more).putFunction (.inr fun same => other ?_)
  exact same.symm.trans named ▸ mem_ownSymbols mem given

theorem lower_bodiless (lowered : prog.lower workers = .ok mod) :
    ∃ prototypes, (∀ sym, Bodiless prototypes sym) ∧
      defineAll prog (allFunctions prog) prototypes = .ok mod := by
  obtain ⟨structs, instances, globals, externals, prototypes, first, second, -, -, declares,
      defines⟩ := lower_ok lowered
  refine ⟨prototypes, fun sym =>
    declareAll_bodiless (externals_bodiless externals fun body found => ?_) declares, defines⟩
  rw [Ir.Module.function?, globals_functions, (lowerInstances_ok second).1, (lowerStructures_ok first).1] at found
  contradiction

theorem lower_bodies (lowered : prog.lower workers = .ok mod) :
    (sym ∈ ownSymbols (allFunctions prog) → HasBody mod sym) ∧
    (sym ∉ ownSymbols (allFunctions prog) → Bodiless mod sym) := by
  obtain ⟨prototypes, none, defines⟩ := lower_bodiless lowered
  exact ⟨fun mem => defineAll_hasBody defines (.inr mem), fun other => defineAll_bodiless (none sym) other defines⟩

end TernLang.Lowering
