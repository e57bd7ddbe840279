import TernLang.Proofs.Program.Outcome

/-! Importing a program again. After a merge that succeeds everything that the program brings is
there, so every step of a second merge leaves the program as it is. -/
namespace TernLang
open Merge List

/-- A dependency is recorded: the entry for its file is a real one, or none was asked for. -/
def Dependency.RecordedIn (dep : Dependency) (deps : List Dependency) : Prop :=
  ∃ existing, deps.find? (·.file.same dep.file) = some existing ∧
    (existing.isPlaceholder → dep.isPlaceholder)

namespace Dependency
variable {dep other : Dependency} {deps : List Dependency}

theorem recordedIn_nil : ¬ dep.RecordedIn [] := nofun

theorem recordedIn_cons : dep.RecordedIn (existing :: deps) ↔
    if existing.file.same dep.file then existing.isPlaceholder → dep.isPlaceholder
    else dep.RecordedIn deps := by
  unfold RecordedIn
  rw [find?_cons]
  cases existing.file.same dep.file <;> simp

theorem recordedIn_putIn (dep : Dependency) (deps : List Dependency) :
    dep.RecordedIn (dep.putIn deps) := by
  induction deps with
  | nil =>
    rw [putIn, recordedIn_cons, if_pos (Path.same_refl _)]
    exact id
  | cons existing rest ih =>
    rw [putIn]
    split
    · next same =>
      split
      · rw [recordedIn_cons, if_pos (Path.same_refl _)]
        exact id
      · next kept =>
        rw [recordedIn_cons, if_pos same]
        simpa using kept
    · next different =>
      rw [recordedIn_cons, if_neg different]
      exact ih

theorem RecordedIn.putIn (recorded : dep.RecordedIn deps) (other : Dependency) :
    dep.RecordedIn (other.putIn deps) := by
  induction deps with
  | nil => exact absurd recorded recordedIn_nil
  | cons existing rest ih =>
    rw [recordedIn_cons] at recorded
    rw [Dependency.putIn]
    split
    · next same =>
      have files : other.file.same dep.file = existing.file.same dep.file := by
        rw [Bool.eq_iff_iff, Path.same_iff, Path.same_iff, Path.same_iff.mp same]
      split
      · next replaced =>
        rw [recordedIn_cons, files]
        split
        · next here =>
          simp only [Bool.and_eq_true, Bool.not_eq_true'] at replaced
          simp [replaced.2]
        · next elsewhere => rwa [if_neg elsewhere] at recorded
      · rwa [recordedIn_cons]
    · rw [recordedIn_cons]
      split
      · next here => rwa [if_pos here] at recorded
      · next elsewhere =>
        rw [if_neg elsewhere] at recorded
        exact ih recorded

theorem RecordedIn.putIn_eq (recorded : dep.RecordedIn deps) :
    dep.putIn deps = deps := by
  induction deps with
  | nil => exact absurd recorded recordedIn_nil
  | cons existing rest ih =>
    rw [recordedIn_cons] at recorded
    rw [Dependency.putIn]
    split
    · next same =>
      rw [if_pos same] at recorded
      rw [if_neg]
      simpa using recorded
    · next different =>
      rw [if_neg different] at recorded
      rw [ih recorded]

end Dependency

namespace Program
variable {prog other before after : Program} {isPublic : Bool}

/-- Everything that a merge would bring is there. -/
structure Settled (other prog : Program) : Prop where
  keys : ∀ key ∈ other.offers, key ∈ prog.keys
  dependencies : ∀ dep ∈ other.dependencies, dep.RecordedIn prog.dependencies
  linkLibraries : ∀ library ∈ other.linkLibraries, library ∈ prog.linkLibraries
  dynamicLibraries : ∀ library ∈ other.dynamicLibraries, library ∈ prog.dynamicLibraries
  itself : ∃ entry ∈ prog.imports, entry.file.same other.file
  imports : ∀ record ∈ other.imports, record.isPublic →
    ∃ entry ∈ prog.imports, entry.file.same record.file

theorem foldl_addDependency_eq {deps : List Dependency}
    (recorded : ∀ dep ∈ deps, dep.RecordedIn prog.dependencies) :
    deps.foldl addDependency prog = prog := by
  induction deps with
  | nil => rfl
  | cons dep rest ih =>
    obtain ⟨first, later⟩ := forall_mem_cons.mp recorded
    rw [foldl_cons, addDependency_eq, first.putIn_eq]
    exact ih later

end Program

namespace Merge
variable {prog other : Program} {isPublic : Bool}

theorem union_eq (there : ∀ item ∈ more, item ∈ items) : union items more = items := by
  induction more with
  | nil => rfl
  | cons item rest ih =>
    obtain ⟨first, later⟩ := forall_mem_cons.mp there
    rw [union, if_pos (contains_iff_mem.mpr first)]
    exact ih later

theorem run_addRecord (known : ∃ found ∈ prog.imports, found.file.same entry.file) :
    (addRecord entry).run.run prog = (.ok (), prog) := by
  have found : prog.imports.any (·.file.same entry.file) := any_eq_true.mpr known
  change (Except.ok (), if prog.imports.any (·.file.same entry.file) then prog else _) = _
  rw [if_pos found]

theorem steps_settled (settled : Program.Settled other prog) (isPublic : Bool) :
    ∀ step ∈ steps other isPublic, step.run.run prog = (.ok (), prog) := by
  have offers (key : Key) (mem : key ∈ other.offers) {step : Merge Unit} (performs : Performs isPublic key step) :
      step.run.run prog = (.ok (), prog) := performs.known prog (settled.keys key mem)
  simp only [Program.offers, mem_append, mem_map, mem_filter] at offers
  refine forall_steps ?_ ?_ (run_addRecord settled.itself)
    (fun record mem exported => run_addRecord (settled.imports record mem exported))
    (fun f mem exported => offers { f.key with category := .external } (by grind)
      (addExternal_performs (asExternal isPublic f)))
    (fun e mem exported => offers e.key (by grind) (addExternal_performs { e with isPublic }))
    (fun item mem exported => offers _ (by grind) (addStructure_performs isPublic item))
    (fun item mem exported => offers _ (by grind) (addClass_performs isPublic item))
    (fun values item mem exported => offers _ (by grind) (addConstant_performs isPublic values item))
    (fun item mem exported => offers _ (by grind) (addGlobal_performs isPublic item))
    (fun item mem exported => offers _ (by grind) (addAlias_performs isPublic item))
    (fun item mem exported => offers _ (by grind) (addEnumeration_performs isPublic item))
  · exact congrArg (Except.ok (), ·) (Program.foldl_addDependency_eq settled.dependencies)
  · have link := union_eq settled.linkLibraries
    have dynamic := union_eq settled.dynamicLibraries
    change (Except.ok (), { prog with linkLibraries := union _ _, dynamicLibraries := union _ _ }) = _
    rw [link, dynamic]

theorem inOrder_idle {steps : List (Merge Unit)}
    (idle : ∀ step ∈ steps, step.run.run prog = (.ok (), prog)) :
    (inOrder steps).run.run prog = (.ok (), prog) := by
  induction steps with
  | nil => rfl
  | cons step rest ih =>
    obtain ⟨first, later⟩ := forall_mem_cons.mp idle
    rw [run_inOrder_cons, first]
    exact ih later

end Merge

namespace Program
variable {prog other before after : Program} {isPublic : Bool}

theorem Settled.merge_eq (settled : Settled other prog) (isPublic : Bool) :
    prog.merge other isPublic = (.ok (), prog) := by
  rw [Program.merge, all_eq_inOrder]
  exact inOrder_idle (steps_settled settled isPublic)

/-- What steps of a merge keep besides declarations. Imports take the visibility asked for. -/
structure Retains (isPublic : Bool) (before after : Program) : Prop where
  dependencies : ∀ dependency : Dependency, dependency.RecordedIn before.dependencies →
    dependency.RecordedIn after.dependencies
  linkLibraries : before.linkLibraries ⊆ after.linkLibraries
  dynamicLibraries : before.dynamicLibraries ⊆ after.dynamicLibraries
  imports : Adds (·.isPublic = isPublic) before.imports after.imports

namespace Retains

theorem of_eq (deps : after.dependencies = before.dependencies)
    (linkLibraries : after.linkLibraries = before.linkLibraries)
    (dynamicLibraries : after.dynamicLibraries = before.dynamicLibraries)
    (imports : after.imports = before.imports) :
    Retains isPublic before after where
  dependencies _ recorded := deps ▸ recorded
  linkLibraries := linkLibraries ▸ Subset.refl _
  dynamicLibraries := dynamicLibraries ▸ Subset.refl _
  imports := imports ▸ .refl _ _

theorem refl (prog : Program) : Retains isPublic prog prog := of_eq rfl rfl rfl rfl

theorem trans (first : Retains isPublic a b) (second : Retains isPublic b c) :
    Retains isPublic a c where
  dependencies dep recorded := second.dependencies dep (first.dependencies dep recorded)
  linkLibraries := Subset.trans first.linkLibraries second.linkLibraries
  dynamicLibraries := Subset.trans first.dynamicLibraries second.dynamicLibraries
  imports := first.imports.trans second.imports

end Retains

theorem foldl_addDependency_records (isPublic : Bool) (deps : List Dependency) (prog : Program) :
    Retains isPublic prog (deps.foldl addDependency prog) ∧
      ∀ dep ∈ deps, dep.RecordedIn (deps.foldl addDependency prog).dependencies := by
  induction deps generalizing prog with
  | nil => exact ⟨.refl prog, forall_mem_nil _⟩
  | cons dep rest ih =>
    obtain ⟨retains, recorded⟩ := ih (prog.addDependency dep)
    have first : Retains isPublic prog (prog.addDependency dep) := by
      rw [addDependency_eq]
      exact { Retains.refl prog with dependencies := fun _ recorded => recorded.putIn dep }
    have here : dep.RecordedIn (prog.addDependency dep).dependencies := by
      rw [addDependency_eq]
      exact dep.recordedIn_putIn prog.dependencies
    exact ⟨first.trans retains, forall_mem_cons.mpr ⟨retains.dependencies dep here, recorded⟩⟩

end Program

namespace Merge
variable {other : Program}

theorem mem_union : item ∈ union items more ↔ item ∈ items ∨ item ∈ more := by
  induction more generalizing items with
  | nil => simp [union]
  | cons next rest ih =>
    rw [union, ih, mem_cons]
    split
    · next there =>
      have there : next ∈ items := contains_iff_mem.mp there
      constructor
      · exact Or.imp_right .inr
      · rintro (old | rfl | more)
        · exact .inl old
        · exact .inl there
        · exact .inr more
    · rw [mem_append, mem_singleton, or_assoc]

theorem addRecord_records (entry : ImportRecord) (prog : Program) :
    Program.Retains entry.isPublic prog ((addRecord entry).run.run prog).2 ∧
      ∃ found ∈ ((addRecord entry).run.run prog).2.imports, found.file.same entry.file := by
  by_cases known : ∃ found ∈ prog.imports, found.file.same entry.file
  · rw [run_addRecord known]
    exact ⟨.refl prog, known⟩
  · have unknown : ¬ prog.imports.any (·.file.same entry.file) := mt any_eq_true.mp known
    have added : ((addRecord entry).run.run prog).2 = { prog with imports := prog.imports ++ [entry] } :=
      if_neg unknown
    rw [added]
    have retains : Program.Retains entry.isPublic prog { prog with imports := prog.imports ++ [entry] } :=
      ⟨fun _ recorded => recorded, Subset.refl _, Subset.refl _, .one rfl⟩
    exact ⟨retains, entry, mem_concat_self, Path.same_refl _⟩

theorem steps_retain (other : Program) (isPublic : Bool) :
    ∀ step ∈ steps other isPublic, Relates (Program.Retains isPublic) step := by
  refine steps_relate_of_links .refl
    (fun _ _ same => .of_eq same.dependencies same.linkLibraries same.dynamicLibraries same.imports)
    (fun prog => ?_) (fun prog => ?_) fun file prog => ?_
  · exact (Program.foldl_addDependency_records isPublic other.dependencies prog).1
  · exact { Program.Retains.refl prog with
      linkLibraries := fun _ mem => mem_union.mpr (.inl mem)
      dynamicLibraries := fun _ mem => mem_union.mpr (.inl mem) }
  · exact (addRecord_records ⟨file, isPublic⟩ prog).1

end Merge

namespace Program
variable {prog other after : Program} {isPublic : Bool}

theorem merge_retains (prog other : Program) (isPublic : Bool) :
    Retains isPublic prog (prog.merge other isPublic).2 := by
  rw [Program.merge, all_eq_inOrder]
  exact inOrder_relates .refl (fun _ _ _ => .trans) (steps_retain other isPublic) prog

theorem merge_settles (merges : prog.merge other isPublic = (.ok (), after)) :
    Settled other after := by
  have extends_ := merge_extends merges
  rw [Program.merge, all_eq_inOrder] at merges
  have done (step : Merge Unit) (mem : step ∈ steps other isPublic) :
      ∃ before between, step.run.run before = (.ok (), between) ∧ Retains isPublic between after :=
    exists_of_inOrder_ok .refl (fun _ _ _ => .trans) (steps_retain other isPublic) merges mem
  have recorded (entry : ImportRecord) (mem : addRecord entry ∈ steps other isPublic) :
      ∃ found ∈ after.imports, found.file.same entry.file := by
    obtain ⟨before, between, runs, retains⟩ := done _ mem
    obtain ⟨found, there, same⟩ := (addRecord_records entry before).2
    rw [runs] at there
    exact ⟨found, retains.imports.subset there, same⟩
  simp only [steps, mem_append, mem_singleton, mem_map, mem_filter] at done recorded
  obtain ⟨start, linked, runs, keeps⟩ := done (modify fun prog => other.dependencies.foldl addDependency prog)
    (by grind)
  obtain ⟨start', loaded, runs', keeps'⟩ := done (addLibraries other) (by grind)
  cases runs
  cases runs'
  exact {
    keys := fun key mem => extends_.mem_keys.mpr (.inr mem)
    dependencies := fun dep mem =>
      keeps.dependencies dep ((foldl_addDependency_records isPublic other.dependencies start).2 dep mem)
    linkLibraries := fun library mem => keeps'.linkLibraries (mem_union.mpr (.inr mem))
    dynamicLibraries := fun library mem => keeps'.dynamicLibraries (mem_union.mpr (.inr mem))
    itself := recorded ⟨other.file, isPublic⟩ (by grind)
    imports := fun record mem exported => recorded ⟨record.file, isPublic⟩ (by grind) }

/-- Importing a program again succeeds and changes nothing, whatever the visibility. -/
theorem merge_again (merges : prog.merge other isPublic = (.ok (), after)) (again : Bool) :
    after.merge other again = (.ok (), after) :=
  (merge_settles merges).merge_eq again

/-- `link "m"`, `public constant LIMIT = $BASE` and `constant BASE = 3`, with a file that it needs.
-/
def toolkit : Program :=
  { ofKinds "toolkit.tn" [.keyword .link, .string "m", .newline,
      .keyword .visible, .keyword .constant, .word "LIMIT", .operator .assign, .dollar, .word "BASE", .newline,
      .keyword .constant, .word "BASE", .operator .assign, .integer .int 3, .newline, .eof] with
    dependencies := [⟨⟨"shapes.tn"⟩, ⟨Fin.last 3, .object⟩, false⟩] }

/-- A program that has only a placeholder for the file. -/
def waiting : Program := { file := ⟨"main.tn"⟩, dependencies := [⟨⟨"shapes.tn"⟩, ⟨Fin.last 3, .object⟩, true⟩] }

/-- The placeholder is replaced and the constant copied once. -/
theorem toolkit_again : ∃ after, waiting.merge toolkit true = (.ok (), after) ∧
    after.dependencies = toolkit.dependencies ∧ after.linkLibraries = ["m"] ∧
    after.constants.map (·.name) = ["LIMIT"] ∧ after.nodes = 1 ∧
      after.merge toolkit false = (.ok (), after) := by
  have merges : waiting.merge toolkit true = (.ok (), (waiting.merge toolkit true).2) :=
    Prod.ext (Success.ok_of_toOption (by decide +kernel)) rfl
  exact ⟨_, merges, by decide +kernel, by decide +kernel, by decide +kernel, by decide +kernel, merge_again merges false⟩

/-! Passing on what was imported. -/

theorem category_of_mem_offers (mem : key ∈ prog.offers) : key.category ≠ .function := by
  obtain ⟨source, -, rfl⟩ := exists_of_mem_offers mem
  dsimp only
  split
  · exact nofun
  · assumption

theorem mem_offers (mem : entry ∈ prog.entries cat) (imported : cat ≠ .function)
    (exported : entry.isPublic) : entry.toKey ∈ prog.offers := by
  simp only [offers, mem_append, mem_map, mem_filter]
  cases cat <;> obtain ⟨item, there, rfl⟩ := mem_map.mp mem <;> grind

/-- A public import passes on everything that the program had not yet imported: it is there and
public, and so is the import itself. Every declaration of before stays as it was. Whoever imports
the program then sees all of it that is not hidden from before. -/
theorem merge_passes_on (merges : prog.merge other true = (.ok (), after)) :
    (∀ key ∈ other.offers, key ∈ after.keys ∧
      ∀ entry ∈ after.entries key.category, entry.toKey = key →
      entry.isPublic ∨ entry ∈ prog.entries key.category) ∧
    (Grows other true prog after ∧ ∀ cat, prog.entries cat <+: after.entries cat) ∧
    (∃ record ∈ after.imports, record.file.same other.file ∧
      (record.isPublic ∨ record ∈ prog.imports)) ∧
    ∀ importer isPublic imported, Program.merge importer after isPublic = (.ok (), imported) →
      ∀ key ∈ other.offers, ⟨key, false⟩ ∉ prog.entries key.category → key ∈ imported.keys := by
  have extends_ := merge_extends merges
  obtain ⟨added, -, -, entries⟩ := extends_.entries
  have there (key : Key) (mem : key ∈ other.offers) : key ∈ after.keys := extends_.mem_keys.mpr (.inr mem)
  have visible (entry : Entry) (cat : Category) (mem : entry ∈ after.entries cat) :
      entry.isPublic ∨ entry ∈ prog.entries cat := by
    rw [entries, mem_append] at mem
    rcases mem with old | new
    · exact .inr old
    · obtain ⟨key, -, rfl⟩ := mem_map.mp new
      exact .inl rfl
  have grows := merge_grows prog other true
  rw [merges] at grows
  refine ⟨fun key mem => ⟨there key mem, fun entry mem _ => visible entry _ mem⟩, ⟨grows, fun cat => ?_⟩, ?_, ?_⟩
  · rw [entries]
    exact prefix_append _ _
  · obtain ⟨record, mem, same⟩ := (merge_settles merges).itself
    have retains := merge_retains prog other true
    rw [merges] at retains
    exact ⟨record, mem, same, (retains.imports.cases mem).symm⟩
  · intro importer isPublic imported again key mem shown
    obtain ⟨entry, found, rfl⟩ := mem_keys.mp (there key mem)
    have exported : entry.isPublic := by
      rcases visible entry _ found with exported | old
      · exact exported
      · cases hidden : entry.isPublic with
        | true => rfl
        | false => exact absurd (hidden ▸ old) shown
    have offered := mem_offers found (category_of_mem_offers mem) exported
    exact (merge_extends again).mem_keys.mpr (.inr offered)

/-- An importer of an importer sees the shapes. -/
theorem shapes_pass_on : ∃ after imported,
    Program.merge { file := ⟨"way.tn"⟩ } shapes true = (.ok (), after) ∧
    Program.merge { file := ⟨"main.tn"⟩ } after false = (.ok (), imported) ∧
    imported.valueNames = ["S", "T"] ∧ ∀ key ∈ shapes.offers, key ∈ imported.keys := by
  have merges : Program.merge { file := ⟨"way.tn"⟩ } shapes true =
      (.ok (), (Program.merge { file := ⟨"way.tn"⟩ } shapes true).2) :=
    Prod.ext (Success.ok_of_toOption (by decide +kernel)) rfl
  have again : Program.merge { file := ⟨"main.tn"⟩ } (Program.merge { file := ⟨"way.tn"⟩ } shapes true).2 false =
      (.ok (), (Program.merge { file := ⟨"main.tn"⟩ }
        (Program.merge { file := ⟨"way.tn"⟩ } shapes true).2 false).2) :=
    Prod.ext (Success.ok_of_toOption (by decide +kernel)) rfl
  have empty (cat : Category) : Program.entries { file := ⟨"way.tn"⟩ } cat = [] := by cases cat <;> rfl
  refine ⟨_, _, merges, again, by decide +kernel, fun key mem => ?_⟩
  exact (merge_passes_on merges).2.2.2 _ _ _ again key mem (by simp [empty])

/-- The shapes, imported for own use and then to be passed on. -/
def hoarder : Program := (({ file := ⟨"hoarder.tn"⟩ } : Program).merge shapes false).2

/-- A public import does not publish what an earlier import brought. -/
theorem hoarder_keeps : (hoarder.merge shapes true).1.toOption = some () ∧
    shapes.structures.map (fun s => (s.name, s.isPublic)) = [("S", true)] ∧
    (hoarder.merge shapes true).2.structures.map (fun s => (s.name, s.isPublic)) = [("S", false)] ∧
    (hoarder.merge shapes true).2.imports = [⟨⟨"shapes.tn"⟩, false⟩] ∧
    (({ file := ⟨"main.tn"⟩ } : Program).merge (hoarder.merge shapes true).2 true).2.valueNames =
      [] := by
  decide +kernel

end Program
end TernLang
