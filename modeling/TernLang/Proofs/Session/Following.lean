import Mathlib.Logic.Relation
import TernLang.Proofs.Session.Loading

/-! Following dependencies. No program links against a file twice, and a finished one links against
all that what it links against does: the first visit finds everything, and no later visit finds
more. -/
namespace TernLang

open List

namespace Load

theorem maintains_linksOnce (sources : Sources) :
    Maintains sources (fun _ => True) (fun _ _ prog => prog.LinksOnce) fun _ prog =>
      prog.LinksOnce where
  entered _ _ _ := trivial
  found _ _ _ _ := trivial
  mono _ _ _ _ once _ := once
  stays _ _ _ once _ := once
  fresh _ _ prog reads := by
    rw [Program.LinksOnce, (Sources.fresh_of_program reads).dependencies]
    exact .nil
  merge _ _ _ _ _ _ _ _ _ once _ _ _ _ _ _ merges := (once.merge merges).addDependency _
  finish _ _ _ once _ := once

end Load

namespace Cache
variable {cache : Cache} {idx : Nat} {found : List Linked} {pending : List Nat}
  {deps : List Dependency} {dep : Dependency}

def linked (cache : Cache) (dep : Dependency) : Linked :=
  ⟨(cache.find? dep.file).getD cache.size, dep⟩

/-- One round of following: a pending program is visited. -/
inductive Visit (cache : Cache) : List Linked × List Nat → List Linked × List Nat → Prop where
  | of {idx : Nat} {prog : Program} {found : List Linked} {pending : List Nat}
    {state : List Linked × List Nat} :
    cache.program idx = .ok prog →
      prog.dependencies.foldlM cache.linkOne (found, pending) = .ok state →
    Visit cache (found, idx :: pending) state

theorem linkOne_known (known : ∃ item ∈ found, item.dependency.file.same dep.file) :
    cache.linkOne (found, pending) dep = .ok (found, pending) :=
  if_pos (any_eq_true.mpr known)

theorem linkOne_new (new : ∀ item ∈ found, item.dependency.file.same dep.file = false)
    (entered : (cache.find? dep.file).isSome) :
    cache.linkOne (found, pending) dep =
      .ok (found ++ [cache.linked dep], (cache.linked dep).index :: pending) := by
  obtain ⟨idx, there⟩ := Option.isSome_iff_exists.mp entered
  have unknown : ¬ found.any (·.dependency.file.same dep.file) := by
    simpa using new
  rw [linkOne, if_neg unknown, linked, there]
  rfl

theorem linkAll_known (known : ∀ dep ∈ deps, ∃ item ∈ found, item.dependency.file.same dep.file) :
    deps.foldlM cache.linkOne (found, pending) = .ok (found, pending) := by
  induction deps with
  | nil => rfl
  | cons dep rest ih =>
    obtain ⟨first, later⟩ := forall_mem_cons.mp known
    rw [foldlM_cons, linkOne_known first]
    exact ih later

theorem linkAll_new (once : deps.Pairwise fun a b => a.file.same b.file = false)
    (entered : ∀ dep ∈ deps, (cache.find? dep.file).isSome)
    (new : ∀ item ∈ found, ∀ dep ∈ deps, item.dependency.file.same dep.file = false) :
    deps.foldlM cache.linkOne (found, pending) = .ok (found ++ deps.map cache.linked,
      ((deps.map cache.linked).map (·.index)).reverse ++ pending) := by
  induction deps generalizing found pending with
  | nil => simp [pure, Except.pure]
  | cons dep rest ih =>
    obtain ⟨first, later⟩ := pairwise_cons.mp once
    obtain ⟨here, others⟩ := forall_mem_cons.mp entered
    have known (item : Linked) (mem : item ∈ found) := forall_mem_cons.mp (new item mem)
    rw [foldlM_cons, linkOne_new (fun item mem => (known item mem).1) here]
    refine (ih later others ?_).trans ?_
    · intro item mem
      rcases mem_append.mp mem with mem | mem
      · exact (known item mem).2
      · rw [mem_singleton.mp mem]
        exact first
    · simp

theorem linkFrom_succ {prog : Program} (given : cache.program idx = .ok prog)
    (round : prog.dependencies.foldlM cache.linkOne (found, pending) = .ok state) (visits : Nat) :
    cache.linkFrom (visits + 1) found (idx :: pending) = cache.linkFrom visits state.1 state.2 := by
  rw [linkFrom, given]
  change (prog.dependencies.foldlM cache.linkOne (found, pending) >>= fun state =>
    cache.linkFrom visits state.1 state.2) = _
  rw [round]
  rfl

theorem visits_known (known : ∀ idx ∈ pending, ∃ prog, cache.program idx = .ok prog ∧
      ∀ dep ∈ prog.dependencies, ∃ item ∈ found, item.dependency.file.same dep.file) :
    (∀ visits, cache.linkFrom visits found pending = .ok found) ∧
      Relation.ReflTransGen cache.Visit (found, pending) (found, []) := by
  induction pending with
  | nil => exact ⟨fun visits => by cases visits <;> rfl, .refl⟩
  | cons idx pending ih =>
    obtain ⟨⟨prog, given, inner⟩, later⟩ := forall_mem_cons.mp known
    obtain ⟨same, ends⟩ := ih later
    have round : prog.dependencies.foldlM cache.linkOne (found, pending) = .ok (found, pending) := linkAll_known inner
    refine ⟨fun visits => ?_, .head (.of given round) ends⟩
    cases visits with
    | zero => rfl
    | succ visits => rw [linkFrom_succ given round, same]

theorem get?_linked (sound : cache.Sound) (holds : cache.Holds dep.file entry) :
    (cache.find? dep.file).isSome ∧ cache.get? (cache.linked dep).index = some entry := by
  obtain ⟨place, there⟩ := mem_iff_getElem?.mp holds.mem
  have found := sound.find?_eq there holds.file
  rw [linked, found]
  exact ⟨rfl, there⟩

theorem closure_eq (reached : cache.Reached) {entry : Entry} (there : cache.get? idx = some entry)
    (ready : entry.isReady) :
    cache.closure idx = .ok (entry.program.dependencies.map cache.linked) ∧
      Relation.ReflTransGen cache.Visit ([], [idx]) (entry.program.dependencies.map cache.linked,
        []) := by
  have sound := reached.sound
  obtain ⟨-, loaded⟩ := sound.ready entry (mem_of_getElem? there) ready
  obtain ⟨-, once⟩ := (reached.keeps Load.maintains_linksOnce).ready entry (mem_of_getElem? there) ready
  have given : cache.program idx = .ok entry.program := by
    rw [Cache.program, there]
    rfl
  have entered (dep : Dependency) (mem : dep ∈ entry.program.dependencies) :
      (cache.find? dep.file).isSome := by
    obtain ⟨_, holds, -⟩ := loaded.dependencies dep mem
    exact (get?_linked sound holds).1
  have round : entry.program.dependencies.foldlM cache.linkOne ([], []) =
      .ok (entry.program.dependencies.map cache.linked,
        ((entry.program.dependencies.map cache.linked).map (·.index)).reverse) := by
    rw [linkAll_new once entered (forall_mem_nil _), append_nil, nil_append]
  have known (place : Nat) (listed : place ∈ ((entry.program.dependencies.map cache.linked).map (·.index)).reverse) :
      ∃ prog, cache.program place = .ok prog ∧ ∀ below ∈ prog.dependencies,
        ∃ item ∈ entry.program.dependencies.map cache.linked, item.dependency.file.same below.file := by
    rw [mem_reverse, map_map] at listed
    obtain ⟨dep, mem, rfl⟩ := mem_map.mp listed
    obtain ⟨other, holds, inner⟩ := loaded.dependencies dep mem
    refine ⟨other.program, ?_, fun below mem => ?_⟩
    · rw [Cache.program, Function.comp_apply, (get?_linked sound holds).2]
      rfl
    · obtain ⟨own, mem, same⟩ := inner below mem
      exact ⟨cache.linked own, mem_map_of_mem mem, same⟩
  obtain ⟨same, ends⟩ := visits_known known
  refine ⟨?_, .head (.of given round) ends⟩
  rw [closure, linkFrom_succ given round, same]

end Cache

end TernLang
