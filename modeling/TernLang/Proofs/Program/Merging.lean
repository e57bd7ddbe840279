import TernLang.Program.Merge
import TernLang.Proofs.Program.Declarations

/-! What a merge does. Each declaration is skipped, stops the merge, or goes behind its table; so
tables only grow, by copies of public declarations of the other program. -/
namespace TernLang

open List hiding modify

/-- The second list goes on behind the first one, with items as stated. -/
def Adds {α : Type} (post : α → Prop) (before after : List α) : Prop :=
  ∃ added, after = before ++ added ∧ ∀ item ∈ added, post item

namespace Adds
variable {α : Type} {post : α → Prop} {a b c : List α} {item : α}

theorem refl (post : α → Prop) (items : List α) : Adds post items items :=
  ⟨[], (append_nil items).symm, fun _ mem => absurd mem not_mem_nil⟩

theorem trans (first : Adds post a b) (second : Adds post b c) : Adds post a c := by
  obtain ⟨early, rfl, here⟩ := first
  obtain ⟨late, rfl, there⟩ := second
  refine ⟨early ++ late, append_assoc .., fun item mem => ?_⟩
  rcases mem_append.mp mem with mem | mem
  · exact here item mem
  · exact there item mem

theorem one (holds : post item) : Adds post a (a ++ [item]) :=
  ⟨[item], rfl, fun _ mem => mem_singleton.mp mem ▸ holds⟩

theorem subset (adds : Adds post a b) (mem : item ∈ a) : item ∈ b := by
  obtain ⟨added, rfl, -⟩ := adds
  exact mem_append_left _ mem

theorem cases (adds : Adds post a b) (mem : item ∈ b) : item ∈ a ∨ post item := by
  obtain ⟨added, rfl, holds⟩ := adds
  exact (mem_append.mp mem).imp_right (holds item)

end Adds

theorem Path.same_refl (path : Path) : path.same path := by simp [Path.same]

namespace Program

structure SameLinks (before after : Program) : Prop where
  dependencies : after.dependencies = before.dependencies
  linkLibraries : after.linkLibraries = before.linkLibraries
  dynamicLibraries : after.dynamicLibraries = before.dynamicLibraries
  imports : after.imports = before.imports

theorem sameTables_addDependencies (prog : Program) (deps : List Dependency) :
    SameTables prog (deps.foldl addDependency prog) := by
  induction deps generalizing prog with
  | nil => exact .refl prog
  | cons dep rest ih =>
    have first : SameTables prog (prog.addDependency dep) := ⟨rfl, rfl, rfl, rfl, rfl, rfl, rfl, rfl, rfl⟩
    exact first.trans (ih _)

end Program

namespace Merge
variable {α β : Type} {prog after : Program}

theorem run_get_bind (next : Program → Merge α) (prog : Program) :
    (get >>= next).run.run prog = (next prog).run.run prog := rfl

/-! One declaration. -/

/-- What every table but the one of externals does with a declaration from elsewhere. -/
def addOnce (known : Program → Bool) (name : String) (loc : Location) (add : Program → Program) : Merge Unit := do
  if known (← get) then return
  expectFree name loc
  modify add

theorem run_addOnce (known : Program → Bool) (name : String) (loc : Location) (add : Program → Program)
    (prog : Program) : (addOnce known name loc add).run.run prog =
      if known prog then (.ok (), prog) else match prog.declared? name with
        | some cat => (.error (.name loc (.importClash name cat)), prog)
        | none => (.ok (), add prog) := by
  rw [addOnce, run_get_bind]
  cases known prog with
  | true => rfl
  | false =>
    rw [if_neg Bool.false_ne_true, if_neg Bool.false_ne_true, ExceptT.run_bind, StateT.run_bind,
      expectFree, run_get_bind]
    cases prog.declared? name <;> rfl

theorem run_addExternal (ext : External) (prog : Program) : (addExternal ext).run.run prog =
    if prog.externals.any fun e => e.name == ext.name && e.origin.same ext.origin && e.params == ext.params then
      (.ok (), prog)
    else match prog.valueNamed? ext.name with
      | some cat => (.error (.name ⟨ext.origin, ext.line⟩ (.importClash ext.name cat)), prog)
      | none =>
        if prog.hasFunctionLike ext.name ext.params then
          (.error (.name ⟨ext.origin, ext.line⟩ (.importClash ext.name .function)), prog)
        else if prog.hasExternalLike ext.name ext.params then
          (.error (.name ⟨ext.origin, ext.line⟩ (.importClash ext.name .external)), prog)
        else (.ok (), { prog with externals := prog.externals ++ [ext] }) := by
  rw [addExternal, run_get_bind]
  dsimp only
  split
  · rfl
  · rw [ExceptT.run_bind, StateT.run_bind, expectFreeCallable, run_get_bind]
    cases prog.valueNamed? ext.name with
    | some cat => rfl
    | none =>
      cases prog.hasFunctionLike ext.name ext.params with
      | true => rfl
      | false => cases prog.hasExternalLike ext.name ext.params <;> rfl

/-! All declarations, one step for each. -/

def steps (other : Program) (isPublic : Bool) : List (Merge Unit) :=
  [modify fun prog => other.dependencies.foldl Program.addDependency prog] ++
  (other.functions.filter (·.isPublic)).map (fun f => addExternal (asExternal isPublic f)) ++
  (other.structures.filter (·.isPublic)).map (addStructure isPublic) ++
  (other.classes.filter (·.isPublic)).map (addClass isPublic) ++
  (other.externals.filter (·.isPublic)).map (fun e => addExternal { e with isPublic }) ++
  [addLibraries other] ++
  (other.constants.filter (·.isPublic)).map (addConstant isPublic (other.constants.map fun c => (c.name, c.value))) ++
  (other.globals.filter (·.isPublic)).map (addGlobal isPublic) ++
  (other.aliases.filter (·.isPublic)).map (addAlias isPublic) ++
  (other.enums.filter (·.isPublic)).map (addEnumeration isPublic) ++
  [addRecord ⟨other.file, isPublic⟩] ++
  (other.imports.filter (·.isPublic)).map fun r => addRecord ⟨r.file, isPublic⟩

def inOrder : List (Merge Unit) → Merge Unit
  | [] => return ()
  | step :: rest => do
    step
    inOrder rest

theorem inOrder_append (first second : List (Merge Unit)) :
    inOrder (first ++ second) = inOrder first >>= fun _ => inOrder second := by
  induction first with
  | nil => exact (pure_bind ..).symm
  | cons step rest ih => simp only [cons_append, inOrder, ih, bind_assoc]

theorem inOrder_singleton (step : Merge Unit) : inOrder [step] = step := bind_pure step

theorem inOrder_map (items : List α) (action : α → Merge Unit) :
    inOrder (items.map action) = items.forM action := by
  induction items with
  | nil => rfl
  | cons item items ih => exact congrArg (action item >>= fun _ => ·) ih

theorem all_eq_inOrder (other : Program) (isPublic : Bool) :
    all other isPublic = inOrder (steps other isPublic) := by
  simp only [steps, inOrder_append, inOrder_map, inOrder_singleton, bind_assoc, all]

theorem run_inOrder_cons (step : Merge Unit) (rest : List (Merge Unit)) (prog : Program) :
    (inOrder (step :: rest)).run.run prog = match step.run.run prog with
      | (.ok (), between) => (inOrder rest).run.run between
      | (.error cause, left) => (.error cause, left) := by
  rw [inOrder, ExceptT.run_bind, StateT.run_bind]
  rcases step.run.run prog with ⟨_ | _, between⟩ <;> rfl

theorem forall_steps {P : Merge Unit → Prop} {other : Program} {isPublic : Bool}
    (deps : P (modify fun prog => other.dependencies.foldl Program.addDependency prog))
    (libraries : P (addLibraries other)) (itself : P (addRecord ⟨other.file, isPublic⟩))
    (records : ∀ record ∈ other.imports, record.isPublic → P (addRecord ⟨record.file, isPublic⟩))
    (fns : ∀ fn ∈ other.functions, fn.isPublic → P (addExternal (asExternal isPublic fn)))
    (externals : ∀ ext ∈ other.externals, ext.isPublic → P (addExternal { ext with isPublic }))
    (structures : ∀ struct ∈ other.structures, struct.isPublic → P (addStructure isPublic struct))
    (classes : ∀ cls ∈ other.classes, cls.isPublic → P (addClass isPublic cls))
    (constants : ∀ values, ∀ const ∈ other.constants, const.isPublic →
      P (addConstant isPublic values const))
    (globals : ∀ glob ∈ other.globals, glob.isPublic → P (addGlobal isPublic glob))
    (aliases : ∀ entry ∈ other.aliases, entry.isPublic → P (addAlias isPublic entry))
    (enums : ∀ enum_ ∈ other.enums, enum_.isPublic → P (addEnumeration isPublic enum_)) :
    ∀ step ∈ steps other isPublic, P step := by
  simp only [steps, forall_mem_append, forall_mem_singleton, forall_mem_map, mem_filter, and_imp]
  exact ⟨⟨⟨⟨⟨⟨⟨⟨⟨⟨⟨deps, fns⟩, structures⟩, classes⟩, externals⟩, libraries⟩, constants _⟩, globals⟩, aliases⟩,
    enums⟩, itself⟩, records⟩

/-- A step that always succeeds and touches no declaration. -/
def Quiet (step : Merge Unit) : Prop :=
  ∀ prog, ∃ after, step.run.run prog = (.ok (), after) ∧ Program.SameTables prog after

theorem quiet_dependencies (deps : List Dependency) :
    Quiet (modify fun prog => deps.foldl Program.addDependency prog) :=
  fun prog => ⟨_, rfl, prog.sameTables_addDependencies deps⟩

theorem quiet_libraries (other : Program) : Quiet (addLibraries other) :=
  fun _ => ⟨_, rfl, rfl, rfl, rfl, rfl, rfl, rfl, rfl, rfl, rfl⟩

theorem quiet_record (entry : ImportRecord) : Quiet (addRecord entry) := by
  intro prog
  refine ⟨_, rfl, ?_⟩
  dsimp only
  split
  · exact .refl prog
  · exact ⟨rfl, rfl, rfl, rfl, rfl, rfl, rfl, rfl, rfl⟩

/-- Success or failure, the program before and the one that is left are related. -/
def Relates (relation : Program → Program → Prop) (step : Merge Unit) : Prop :=
  ∀ prog, relation prog (step.run.run prog).2

section
variable {relation : Program → Program → Prop} (refl : ∀ prog, relation prog prog)
  (trans : ∀ a b c, relation a b → relation b c → relation a c)

theorem Quiet.relates (quiet : Quiet step) (tables : ∀ a b, Program.SameTables a b → relation a b) :
    Relates relation step := by
  intro prog
  obtain ⟨after, runs, same⟩ := quiet prog
  rw [runs]
  exact tables _ _ same

include refl in
theorem addOnce_relates (adds : ∀ prog, prog.declared? name = none → relation prog (add prog)) :
    Relates relation (addOnce known name loc add) := by
  intro prog
  rw [run_addOnce]
  split
  · exact refl prog
  · cases free : prog.declared? name with
    | some cat => exact refl prog
    | none => exact adds prog free

include refl in
theorem addExternal_relates (adds : ∀ prog, prog.valueNamed? ext.name = none →
      prog.hasFunctionLike ext.name ext.params = false → prog.hasExternalLike ext.name ext.params =
      false → relation prog { prog with externals := prog.externals ++ [ext] }) :
    Relates relation (addExternal ext) := by
  intro prog
  rw [run_addExternal]
  split
  · exact refl prog
  · cases noValue : prog.valueNamed? ext.name with
    | some cat => exact refl prog
    | none =>
      dsimp only
      split
      · exact refl prog
      · next noFunction =>
        split
        · exact refl prog
        · next noExternal =>
          exact adds prog noValue (Bool.not_eq_true _ ▸ noFunction) (Bool.not_eq_true _ ▸ noExternal)

section
variable {other : Program} {isPublic : Bool}

include refl in
/-- Declarations leave alone what is not in the tables. -/
theorem steps_relate_of_links (links : ∀ a b, Program.SameLinks a b → relation a b) (deps : Relates
      relation (modify fun prog => other.dependencies.foldl Program.addDependency prog))
    (libraries : Relates relation (addLibraries other))
    (records : ∀ file, Relates relation (addRecord ⟨file, isPublic⟩)) :
    ∀ step ∈ steps other isPublic, Relates relation step := by
  refine forall_steps deps libraries (records _) (fun _ _ _ => records _) ?_ ?_ ?_ ?_ ?_ ?_ ?_ ?_
  all_goals intros
  case refine_1 | refine_2 => exact addExternal_relates refl fun _ _ _ _ => links _ _ ⟨rfl, rfl, rfl, rfl⟩
  all_goals exact addOnce_relates refl fun _ _ => links _ _ ⟨rfl, rfl, rfl, rfl⟩

end

variable {steps : List (Merge Unit)} (each : ∀ step ∈ steps, Relates relation step)
include refl trans each

theorem inOrder_relates : Relates relation (inOrder steps) := by
  induction steps with
  | nil => exact refl
  | cons step rest ih =>
    obtain ⟨first, later⟩ := forall_mem_cons.mp each
    intro prog
    have here := first prog
    rw [run_inOrder_cons]
    rcases runs : step.run.run prog with ⟨_ | ⟨⟩, between⟩ <;> rw [runs] at here
    · exact here
    · exact trans _ _ _ here (ih later between)

theorem exists_of_inOrder_ok (runs : (inOrder steps).run.run prog = (.ok (), after))
    (mem : step ∈ steps) :
    ∃ before between, step.run.run before = (.ok (), between) ∧ relation between after := by
  induction steps generalizing prog with
  | nil => contradiction
  | cons first rest ih =>
    obtain ⟨-, later⟩ := forall_mem_cons.mp each
    rw [run_inOrder_cons] at runs
    rcases here : first.run.run prog with ⟨_ | ⟨⟩, between⟩ <;> simp only [here] at runs
    · cases runs
    · rcases mem_cons.mp mem with rfl | mem
      · have rest := inOrder_relates refl trans later between
        rw [runs] at rest
        exact ⟨prog, between, here, rest⟩
      · exact ih later runs mem

end

end Merge

/-! What is there afterwards. -/

namespace Program

/-- What a program becomes while public declarations of another one are merged in. -/
structure Grows (other : Program) (isPublic : Bool) (before after : Program) : Prop where
  file : after.file = before.file
  functions : after.functions = before.functions
  externals :
    Adds (fun ext => (∃ fn ∈ other.functions, fn.isPublic ∧ ext = Merge.asExternal isPublic fn) ∨
    ∃ src ∈ other.externals, src.isPublic ∧
      ext = { src with isPublic }) before.externals after.externals
  structures :
    Adds (fun struct => ∃ src ∈ other.structures, src.isPublic ∧ struct = { src with isPublic })
    before.structures after.structures
  classes : Adds (fun cls => ∃ src ∈ other.classes, src.isPublic ∧ ∃ off,
    cls = Merge.asImported isPublic off src) before.classes after.classes
  globals : Adds (fun glob => ∃ src ∈ other.globals, src.isPublic ∧
    glob = { src with isPublic, isImported := true }) before.globals after.globals
  aliases : Adds (fun entry => ∃ src ∈ other.aliases, src.isPublic ∧ entry = { src with isPublic })
    before.aliases after.aliases
  enums : Adds (fun enum_ => ∃ src ∈ other.enums, src.isPublic ∧ enum_ = { src with isPublic })
    before.enums after.enums

namespace Grows
variable {other : Program} {isPublic : Bool} {a b c : Program}

theorem of_sameTables (same : SameTables a b) : Grows other isPublic a b where
  file := same.file
  functions := same.functions
  externals := same.externals ▸ .refl ..
  structures := same.structures ▸ .refl ..
  classes := same.classes ▸ .refl ..
  globals := same.globals ▸ .refl ..
  aliases := same.aliases ▸ .refl ..
  enums := same.enums ▸ .refl ..

theorem refl (prog : Program) : Grows other isPublic prog prog := of_sameTables (.refl prog)

theorem trans (first : Grows other isPublic a b) (second : Grows other isPublic b c) :
    Grows other isPublic a c where
  file := second.file.trans first.file
  functions := second.functions.trans first.functions
  externals := first.externals.trans second.externals
  structures := first.structures.trans second.structures
  classes := first.classes.trans second.classes
  globals := first.globals.trans second.globals
  aliases := first.aliases.trans second.aliases
  enums := first.enums.trans second.enums

end Grows
end Program

namespace Merge
variable {other : Program} {isPublic : Bool}

/-- A merge takes nothing but public declarations of the other program. -/
theorem steps_grow (other : Program) (isPublic : Bool) :
    ∀ step ∈ steps other isPublic, Relates (Program.Grows other isPublic) step := by
  have quiet {step : Merge Unit} (quiet : Quiet step) : Relates (Program.Grows other isPublic) step :=
    quiet.relates fun _ _ => .of_sameTables
  refine forall_steps (quiet (quiet_dependencies _)) (quiet (quiet_libraries _)) (quiet (quiet_record _))
    (fun _ _ _ => quiet (quiet_record _)) ?_ ?_ ?_ ?_ ?_ ?_ ?_ ?_
  · exact fun fn mem exported => addExternal_relates .refl fun prog _ _ _ =>
      { Program.Grows.refl prog with externals := .one (.inl ⟨fn, mem, exported, rfl⟩) }
  · exact fun ext mem exported => addExternal_relates .refl fun prog _ _ _ =>
      { Program.Grows.refl prog with externals := .one (.inr ⟨ext, mem, exported, rfl⟩) }
  · exact fun struct mem exported => addOnce_relates .refl fun prog _ =>
      { Program.Grows.refl prog with structures := .one ⟨struct, mem, exported, rfl⟩ }
  · exact fun cls mem exported => addOnce_relates .refl fun prog _ =>
      { Program.Grows.refl prog with classes := .one ⟨cls, mem, exported, _, rfl⟩ }
  · exact fun _ _ _ _ => addOnce_relates .refl fun prog _ => { Program.Grows.refl prog with }
  · exact fun glob mem exported => addOnce_relates .refl fun prog _ =>
      { Program.Grows.refl prog with globals := .one ⟨glob, mem, exported, rfl⟩ }
  · exact fun entry mem exported => addOnce_relates .refl fun prog _ =>
      { Program.Grows.refl prog with aliases := .one ⟨entry, mem, exported, rfl⟩ }
  · exact fun enum_ mem exported => addOnce_relates .refl fun prog _ =>
      { Program.Grows.refl prog with enums := .one ⟨enum_, mem, exported, rfl⟩ }

end Merge

namespace Program

theorem merge_grows (prog other : Program) (isPublic : Bool) :
    Grows other isPublic prog (prog.merge other isPublic).2 := by
  rw [Program.merge, Merge.all_eq_inOrder]
  exact Merge.inOrder_relates .refl (fun _ _ _ => .trans) (Merge.steps_grow other isPublic) prog

end Program
end TernLang
