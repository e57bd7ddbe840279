import TernLang.Proofs.Session.Places
import TernLang.Proofs.Session.Reads

/-! Loading with an empty cache. It ends by itself and reads no file twice. It succeeds just if the
file can be assembled; then the graph of imports below it has no cycle and the cache holds exactly
the files of that graph. A circular import is reported only where there is one. -/
namespace TernLang.Load

variable {srcs : Sources} {files : List Path} {cfg : BuildConfig} {path file : Path} {idx : Nat}
  {after : Cache}

theorem path_ne_tooDeep (finite : srcs.Finite files) (cfg : BuildConfig) (path other : Path) :
    ((Load.path srcs cfg path).run.run {}).1 ≠ .error (.session (.tooDeep other)) := by
  intro fails
  cases leads : srcs.canonical? path with
  | none =>
    rw [path_unknown cfg _ leads] at fails
    cases fails
  | some file =>
    rcases path_outcome finite cfg (orderly_empty srcs) leads with ⟨idx, prog, loads, -⟩ | ⟨cause, stops, spec⟩
    · cases fails.symm.trans loads
    · cases fails.symm.trans stops
      exact Sources.assemble_ne_tooDeep finite (.inl ⟨path, leads⟩) (finite.room _) none other spec

theorem file_of_depth (finite : srcs.Finite files) (cfg : BuildConfig)
    (leads : srcs.canonical? path = some file) (more : srcs.depth < depth) :
    (Load.file srcs cfg depth file none).run.run {} =
      (Load.file srcs cfg (srcs.depth + 1) file none).run.run {} := by
  apply file_deepens_le srcs cfg more file none
  intro other fails
  apply path_ne_tooDeep finite cfg path other
  have runs : (Load.path srcs cfg path).run.run {} =
      ((do return (← Load.file srcs cfg (srcs.depth + 1) file none).1 : Load Nat).run.run {}) := by
    unfold Load.path
    rw [leads]
  rw [runs, ExceptT.run_bind, StateT.run_bind]
  revert fails
  rcases (Load.file srcs cfg (srcs.depth + 1) file none).run.run {} with ⟨outcome, left⟩
  rintro ⟨⟩
  rfl

theorem reads_of_path (srcs : Sources) (cfg : BuildConfig) (path : Path) :
    ((Load.path srcs.noting cfg path).run.run {}).run [] =
      ((Load.path srcs cfg path).run.run {},
        ((Load.path srcs cfg path).run.run {}).2.entries.map (·.file)) := by
  obtain ⟨read, runs, entries⟩ := path_notes srcs cfg path {} []
  rw [runs, entries]
  rfl

theorem entries_of_path (finite : srcs.Finite files)
    (loads : (Load.path srcs cfg path).run.run {} = (.ok idx, after)) :
    ∃ file, srcs.canonical? path = some file ∧ (after.get? idx).map (·.file) = some file ∧
      (∀ other, srcs.Reaches file other → ¬ Relation.TransGen srcs.Imports other other) ∧
      (∀ other, other ∈ after.entries.map (·.file) ↔ srcs.Reaches file other) ∧
      ∀ entry ∈ after.entries, entry.isReady ∧ entry.program.file = entry.file ∧
        ∀ imported, srcs.Imports entry.file imported →
          ∃ record ∈ entry.program.imports, record.file.same imported := by
  cases leads : srcs.canonical? path with
  | none => cases loads.symm.trans (path_unknown cfg _ leads)
  | some file =>
    have gives := path_agrees finite cfg (orderly_empty srcs) leads
    unfold Ends at gives
    rw [loads] at gives
    obtain ⟨root, there, ready, rfl, -⟩ := gives.here
    have mem : root ∈ after.entries := List.mem_of_getElem? there
    obtain ⟨added, entries, each⟩ := gives.adds
    rw [List.nil_append] at entries
    rw [← entries] at each
    refine ⟨root.file, rfl, by rw [there]; rfl, ?_, ?_, ?_⟩
    · intro other reaches
      obtain ⟨entry, mem, ready, rfl⟩ := gives.tidy.of_reaches mem ready reaches
      exact (gives.tidy.ready entry mem ready).1.acyclic
    · intro other
      constructor
      · intro listed
        obtain ⟨entry, found, rfl⟩ := List.mem_map.mp listed
        exact (each entry found).2
      · intro reaches
        obtain ⟨entry, mem, -, rfl⟩ := gives.tidy.of_reaches mem ready reaches
        exact List.mem_map_of_mem mem
    · intro entry mem
      have ready := (each entry mem).1
      exact ⟨ready, (gives.tidy.ready entry mem ready).1.records⟩

theorem isOk_path_iff (finite : srcs.Finite files) (cfg : BuildConfig) (path : Path) :
    ((Load.path srcs cfg path).run.run {}).1.isOk ↔
      ∃ file prog, srcs.canonical? path = some file ∧ srcs.Assembles file prog := by
  cases leads : srcs.canonical? path with
  | none =>
    rw [path_unknown cfg _ leads]
    simp [Except.isOk, Except.toBool]
  | some file =>
    rcases path_outcome finite cfg (orderly_empty srcs) leads with ⟨idx, prog, loads, -, spec⟩ | ⟨cause, stops, spec⟩
    · rw [loads]
      exact iff_of_true rfl ⟨file, _, rfl, Sources.assembles_of_assemble spec⟩
    · rw [stops]
      refine iff_of_false Bool.false_ne_true ?_
      rintro ⟨file, prog, ⟨⟩, assembles⟩
      cases spec.symm.trans (Sources.assemble_of_assembles finite assembles (.inl ⟨path, leads⟩) (finite.room _)
        (fun _ _ => List.not_mem_nil) none)

/-- A load into an empty cache reads no file twice. It succeeds just when the files that imports
lead to can be put together; they are then what the cache holds. -/
theorem fresh_load_correct (finite : srcs.Finite files) (cfg : BuildConfig) (path : Path) :
    let loaded := (Load.path srcs cfg path).run.run {}
    ((∀ file, loaded.1 ≠ .error (.session (.tooDeep file))) ∧
      ∀ file depth, srcs.canonical? path = some file → srcs.depth < depth →
        (Load.file srcs cfg depth file none).run.run {} =
        (Load.file srcs cfg (srcs.depth + 1) file none).run.run {}) ∧
    (((Load.path srcs.noting cfg path).run.run {}).run [] = (loaded, loaded.2.entries.map (·.file)) ∧
      (loaded.2.entries.map (·.file)).Pairwise fun a b => a.same b = false) ∧
    (loaded.1.isOk ↔ ∃ file prog, srcs.canonical? path = some file ∧ srcs.Assembles file prog) ∧
    (∀ idx, loaded.1 = .ok idx → ∃ file, srcs.canonical? path = some file ∧
      (loaded.2.get? idx).map (·.file) = some file ∧
      (∀ other, srcs.Reaches file other → ¬ Relation.TransGen srcs.Imports other other) ∧
      (∀ other, other ∈ loaded.2.entries.map (·.file) ↔ srcs.Reaches file other) ∧
      ∀ entry ∈ loaded.2.entries, entry.isReady ∧ entry.program.file = entry.file ∧
        ∀ imported, srcs.Imports entry.file imported → ∃ record ∈ entry.program.imports, record.file.same imported) ∧
    ∀ loc other, loaded.1 = .error (.name loc (.circularImport other)) →
      ∃ file, srcs.canonical? path = some file ∧ srcs.Reaches file other ∧ srcs.Reaches other loc.file ∧
        srcs.Imports loc.file other := by
  have distinct := (Cache.Reached.load srcs cfg path .empty).sound.distinct
  refine ⟨⟨path_ne_tooDeep finite cfg path, fun file depth leads => file_of_depth finite cfg leads⟩,
    ⟨reads_of_path srcs cfg path, distinct⟩, isOk_path_iff finite cfg path, ?_, ?_⟩
  · intro idx loads
    exact entries_of_path finite (Prod.ext loads rfl)
  · intro loc other fails
    rcases circular_of_path finite cfg (orderly_empty srcs) fails with none | cycle
    · exact absurd none List.not_mem_nil
    · exact cycle

/-- A file that is imported on two ways. -/
def diamond : Disk :=
  Disk.ofFiles [("a.tern", "import b\nimport c"), ("b.tern", "import c"), ("c.tern", "")]

theorem diamond_finite : (diamond.sources none).Finite (diamond.nodes.keys.map Disk.pathOf) :=
  Disk.sources_finite none (List.forall_mem_nil _)

theorem diamond_load_correct : (diamond.sources none).Finite (diamond.nodes.keys.map Disk.pathOf) ∧
    ((Load.path (diamond.sources none) ⟨Fin.last 3, .object⟩ ⟨"a.tern"⟩).run.run {}).1 = .ok 0 ∧
    ∀ other, other ∈ ([⟨"/a.tern"⟩, ⟨"/b.tern"⟩, ⟨"/c.tern"⟩] : List Path) ↔
      (diamond.sources none).Reaches ⟨"/a.tern"⟩ other := by
  have known : ((Load.path (diamond.sources none) ⟨Fin.last 3, .object⟩ ⟨"a.tern"⟩).run.run {}).1.toOption = some 0 ∧
      ((Load.path (diamond.sources none) ⟨Fin.last 3, .object⟩ ⟨"a.tern"⟩).run.run {}).2.entries.map (·.file) =
        [⟨"/a.tern"⟩, ⟨"/b.tern"⟩, ⟨"/c.tern"⟩] ∧
      (diamond.sources none).canonical? ⟨"a.tern"⟩ = some ⟨"/a.tern"⟩ := by decide +kernel
  obtain ⟨loads, entries, leads⟩ := known
  have loads := Success.ok_of_toOption loads
  obtain ⟨file, found, -, -, reaches, -⟩ :=
    (fresh_load_correct diamond_finite ⟨Fin.last 3, .object⟩ ⟨"a.tern"⟩).2.2.2.1 0 loads
  rw [entries] at reaches
  cases leads.symm.trans found
  exact ⟨diamond_finite, loads, reaches⟩

end TernLang.Load
