import TernLang.Proofs.Program.Merging

/-! Files to link against. A merge keeps them and takes over all of the other program's. -/
namespace TernLang

open List hiding modify

namespace Path
variable {a b c : Path}

theorem same_iff : a.same b ↔ a.components = b.components := by simp [same]

theorem same_symm (same : a.same b) : b.same a := same_iff.mpr (same_iff.mp same).symm

theorem same_trans (first : a.same b) (second : b.same c) : a.same c :=
  same_iff.mpr ((same_iff.mp first).trans (same_iff.mp second))

theorem same_left (same : a.same b) (c : Path) : a.same c = b.same c := by
  unfold Path.same
  rw [same_iff.mp same]

end Path

namespace Dependency
variable {dep : Dependency} {deps : List Dependency}

/-- A list with one more dependency, by recursion on the list. -/
def putIn (dep : Dependency) : List Dependency → List Dependency
  | [] => [dep]
  | existing :: rest =>
    if existing.file.same dep.file then
      (if existing.isPlaceholder && ! dep.isPlaceholder then dep else existing) :: rest
    else existing :: dep.putIn rest

theorem mem_putIn {found : Dependency} (mem : found ∈ dep.putIn deps) :
    found ∈ deps ∨ found = dep := by
  induction deps with
  | nil => exact .inr (mem_singleton.mp mem)
  | cons existing rest ih =>
    rw [putIn] at mem
    split at mem
    · rcases mem_cons.mp mem with rfl | mem
      · split
        · exact .inr rfl
        · exact .inl mem_cons_self
      · exact .inl (mem_cons_of_mem _ mem)
    · rcases mem_cons.mp mem with rfl | mem
      · exact .inl mem_cons_self
      · exact (ih mem).imp_left (mem_cons_of_mem _)

theorem covered_putIn (dep : Dependency) (deps : List Dependency) (file : Path) :
    (∃ found ∈ dep.putIn deps, found.file.same file) ↔
      dep.file.same file ∨ ∃ found ∈ deps, found.file.same file := by
  induction deps with
  | nil => simp [putIn]
  | cons existing rest ih =>
    rw [putIn]
    split
    · next same =>
      have alike := Path.same_left same file
      split <;> simp [alike]
    · simp [ih, or_left_comm]

theorem pairwise_putIn (dep : Dependency)
    (once : deps.Pairwise fun a b => a.file.same b.file = false) :
    (dep.putIn deps).Pairwise fun a b => a.file.same b.file = false := by
  induction deps with
  | nil => exact pairwise_singleton ..
  | cons existing rest ih =>
    obtain ⟨first, later⟩ := pairwise_cons.mp once
    rw [putIn]
    by_cases same : existing.file.same dep.file
    · rw [if_pos same]
      refine pairwise_cons.mpr ⟨fun other mem => ?_, later⟩
      split
      · rw [← Path.same_left same]
        exact first other mem
      · exact first other mem
    · rw [if_neg same]
      refine pairwise_cons.mpr ⟨fun other mem => ?_, ih later⟩
      rcases mem_putIn mem with mem | rfl
      · exact first other mem
      · exact Bool.eq_false_iff.mpr same

end Dependency

namespace Program
variable {prog other after : Program} {file : Path}

def Covers (prog : Program) (file : Path) : Prop := ∃ dep ∈ prog.dependencies, dep.file.same file

theorem Covers.of_same {file' : Path} (covers : prog.Covers file) (same : file.same file') :
    prog.Covers file' := by
  obtain ⟨dep, mem, here⟩ := covers
  exact ⟨dep, mem, Path.same_trans here same⟩

theorem addDependency_eq (prog : Program) (dep : Dependency) :
    prog.addDependency dep = { prog with dependencies := dep.putIn prog.dependencies } := by
  rw [addDependency]
  congr 1
  induction prog.dependencies with
  | nil => rfl
  | cons existing rest ih =>
    rw [findIdx?_cons, Dependency.putIn]
    cases existing.file.same dep.file with
    | true => rfl
    | false =>
      rw [if_neg Bool.false_ne_true, if_neg Bool.false_ne_true, ← ih]
      cases rest.findIdx? (·.file.same dep.file) <;> rfl

theorem dependencies_addDependency (prog : Program) (dep : Dependency) :
    (∀ d ∈ (prog.addDependency dep).dependencies, d ∈ prog.dependencies ∨ d = dep) ∧
    (prog.addDependency dep).Covers dep.file ∧
    ∀ file, prog.Covers file → (prog.addDependency dep).Covers file := by
  rw [addDependency_eq]
  exact ⟨fun _ => Dependency.mem_putIn, (dep.covered_putIn _ _).mpr (.inl (Path.same_refl _)),
    fun file covers => (dep.covered_putIn _ file).mpr (.inr covers)⟩

/-- What a program links against while another one is merged in. -/
structure Spreads (other before after : Program) : Prop where
  kept : ∀ file, before.Covers file → after.Covers file
  known : ∀ dep ∈ after.dependencies, dep ∈ before.dependencies ∨ dep ∈ other.dependencies

namespace Spreads
variable {a b c : Program}

theorem of_eq (same : b.dependencies = a.dependencies) : Spreads other a b where
  kept file covers := by
    rw [Covers, same]
    exact covers
  known dep mem := .inl (same ▸ mem)

theorem refl (prog : Program) : Spreads other prog prog := of_eq rfl

theorem trans (first : Spreads other a b) (second : Spreads other b c) : Spreads other a c where
  kept file covers := second.kept file (first.kept file covers)
  known dep mem := by
    rcases second.known dep mem with mem | mem
    · exact first.known dep mem
    · exact .inr mem

end Spreads

theorem dependencies_foldl (deps : List Dependency) (prog : Program) :
    (∀ d ∈ (deps.foldl addDependency prog).dependencies, d ∈ prog.dependencies ∨ d ∈ deps) ∧
    (∀ d ∈ deps, (deps.foldl addDependency prog).Covers d.file) ∧
    ∀ file, prog.Covers file → (deps.foldl addDependency prog).Covers file := by
  induction deps generalizing prog with
  | nil => exact ⟨fun _ mem => .inl mem, forall_mem_nil _, fun _ covers => covers⟩
  | cons dep rest ih =>
    obtain ⟨known, here, kept⟩ := prog.dependencies_addDependency dep
    obtain ⟨laterKnown, laterHere, laterKept⟩ := ih (prog.addDependency dep)
    refine ⟨fun d mem => ?_, forall_mem_cons.mpr ⟨laterKept _ here, laterHere⟩, fun file covers => ?_⟩
    · rcases laterKnown d mem with mem | mem
      · rcases known d mem with mem | rfl
        · exact .inl mem
        · exact .inr mem_cons_self
      · exact .inr (mem_cons_of_mem _ mem)
    · exact laterKept file (kept file covers)

theorem steps_spread (other : Program) (isPublic : Bool) :
    ∀ step ∈ Merge.steps other isPublic, Merge.Relates (Spreads other) step := by
  refine Merge.steps_relate_of_links .refl (fun _ _ same => .of_eq same.dependencies)
    (fun prog => ?_) (fun prog => .of_eq rfl) fun file prog => .of_eq ?_
  · obtain ⟨known, -, kept⟩ := dependencies_foldl other.dependencies prog
    exact ⟨kept, known⟩
  · change (if prog.imports.any _ then prog else _).dependencies = prog.dependencies
    split <;> rfl

/-- After a merge that succeeds, the program links against what either did. -/
theorem merge_spreads {isPublic : Bool} (merges : prog.merge other isPublic = (.ok (), after)) :
    Spreads other prog after ∧ ∀ dep ∈ other.dependencies, after.Covers dep.file := by
  rw [Program.merge, Merge.all_eq_inOrder] at merges
  have spreads := Merge.inOrder_relates .refl (fun _ _ _ => .trans) (steps_spread other isPublic) prog
  rw [merges] at spreads
  refine ⟨spreads, fun dep mem => ?_⟩
  have first : modify (fun prog => other.dependencies.foldl addDependency prog) ∈ Merge.steps other isPublic := by
    simp [Merge.steps]
  obtain ⟨before, between, runs, later⟩ :=
    Merge.exists_of_inOrder_ok .refl (fun _ _ _ => .trans) (steps_spread other isPublic) merges first
  cases runs
  exact later.kept _ ((dependencies_foldl other.dependencies before).2.1 dep mem)

def LinksOnce (prog : Program) : Prop :=
  prog.dependencies.Pairwise fun a b => a.file.same b.file = false

theorem LinksOnce.addDependency (once : prog.LinksOnce) (dep : Dependency) :
    (prog.addDependency dep).LinksOnce := by
  rw [addDependency_eq]
  exact dep.pairwise_putIn once

theorem steps_linkOnce (other : Program) (isPublic : Bool) : ∀ step ∈ Merge.steps other isPublic,
    Merge.Relates (fun before after => before.LinksOnce → after.LinksOnce) step := by
  refine Merge.steps_relate_of_links (fun _ => id) (fun before after same once => ?_)
    (fun prog once => ?_) (fun prog once => once) fun file prog once => ?_
  · rw [LinksOnce, same.dependencies]
    exact once
  · exact foldlRecOn other.dependencies Program.addDependency once fun _ once dep _ => once.addDependency dep
  · change LinksOnce (if prog.imports.any _ then prog else _)
    split
    · exact once
    · exact once

theorem LinksOnce.merge {isPublic : Bool} {merged : Program} (once : prog.LinksOnce)
    (merges : prog.merge other isPublic = (.ok (), merged)) : merged.LinksOnce := by
  have all := Merge.inOrder_relates (fun _ => id) (fun _ _ _ first second once => second (first once))
    (steps_linkOnce other isPublic) prog once
  rw [Program.merge, Merge.all_eq_inOrder] at merges
  rwa [merges] at all

end Program
end TernLang
