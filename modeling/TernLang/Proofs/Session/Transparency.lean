import TernLang.Proofs.Session.Caching
import TernLang.Proofs.Session.Places

/-! Loading in a session that has loaded before. It succeeds just when it would with an empty cache,
with the same program. A failure is the same too, unless a file is come to whose loading failed
before: its entry is still unfinished, and it is refused as if it were on the import path. -/
namespace TernLang.Load

variable {srcs : Sources} {files : List Path} {cfg : BuildConfig} {path file : Path} {cache : Cache}
  {cause : Error}

/-- Files that cannot be assembled do not stand in the way of one that can. -/
theorem assemble_clear (finite : srcs.Finite files) (names : srcs.Names file)
    {first second : List Path} {res : Program}
    (assembles : srcs.assemble (srcs.depth + 1) first file none = .ok res)
    (broken : ∀ other ∈ second, srcs.Broken other) :
    srcs.assemble (srcs.depth + 1) second file none = .ok res := by
  have assembles := Sources.assembles_of_assemble assembles
  refine Sources.assemble_of_assembles finite assembles names (finite.room second) ?_ none
  intro other reaches mem
  exact (broken other mem).above reaches res assembles

/-- Loading a path comes to an unfinished file, which is refused. -/
def Refuses (srcs : Sources) (cache : Cache) (path : Path) (cause : Error) : Prop :=
  ∃ file other importedAt, srcs.canonical? path = some file ∧ other ∈ cache.unfinished ∧
    srcs.Visits file none other importedAt ∧ cause = Sources.refusal other importedAt

theorem outcome_like_fresh (finite : srcs.Finite files) (cfg : BuildConfig)
    (orderly : Orderly srcs cache) (path : Path) :
    (∃ idx prog idx' prog', ((Load.path srcs cfg path).run.run cache).1 = .ok idx ∧
      ((Load.path srcs cfg path).run.run cache).2.program idx = .ok prog ∧
      ((Load.path srcs cfg path).run.run {}).1 = .ok idx' ∧
      ((Load.path srcs cfg path).run.run {}).2.program idx' = .ok prog' ∧
        prog.unlinked = prog'.unlinked) ∨
    ∃ cause cause', ((Load.path srcs cfg path).run.run cache).1 = .error cause ∧
      ((Load.path srcs cfg path).run.run {}).1 = .error cause' ∧
        (cause = cause' ∨ Refuses srcs cache path cause) := by
  cases leads : srcs.canonical? path with
  | none => exact .inr ⟨_, _, by rw [path_unknown cfg _ leads], by rw [path_unknown cfg _ leads], .inl rfl⟩
  | some file =>
    have names : srcs.Names file := .inl ⟨path, leads⟩
    have outcome := path_outcome finite cfg orderly leads
    rcases path_outcome finite cfg (orderly_empty srcs) leads with
      ⟨idx', prog', loads', given', fresh⟩ | ⟨cause', fails', fresh⟩
    · rcases outcome with ⟨idx, prog, loads, given, again⟩ | ⟨cause, fails, again⟩
      · have same := (assemble_clear finite names again (List.forall_mem_nil _)).symm.trans fresh
        exact .inl ⟨idx, prog, idx', prog', loads, given, loads', given', Except.ok.inj same⟩
      · cases again.symm.trans (assemble_clear finite names fresh orderly.broken)
    · rcases outcome with ⟨idx, prog, loads, given, again⟩ | ⟨cause, fails, again⟩
      · cases fresh.symm.trans (assemble_clear finite names again (List.forall_mem_nil _))
      · refine .inr ⟨cause, cause', fails, fails', ?_⟩
        rcases Sources.assemble_of_subset (List.nil_subset cache.unfinished) none with same | ⟨_, refused, stops⟩
        · exact .inl (Except.error.inj (again.symm.trans (same.trans fresh)))
        · cases again.symm.trans stops
          obtain ⟨other, mem, -, importedAt, visits, rfl⟩ := refused
          exact .inr ⟨file, other, importedAt, leads, mem, visits, rfl⟩

theorem unfinished_history (finite : srcs.Finite files) (paths : List Path)
    (succeed : ∀ before path later, paths = before ++ path :: later →
      ((Load.path srcs cfg path).run.run (history srcs cfg before)).1.isOk) :
    (history srcs cfg paths).unfinished = [] := by
  induction paths using List.reverseRecOn with
  | nil => rfl
  | append_singleton paths path ih =>
    have earlier := ih fun before other later same => succeed before other (later ++ [path]) (by rw [same]; simp)
    have last := succeed paths path [] rfl
    rw [history_concat]
    cases leads : srcs.canonical? path with
    | none =>
      rw [path_unknown cfg _ leads]
      exact earlier
    | some file =>
      have ends := path_agrees finite cfg (history_orderly finite cfg paths) leads
      unfold Ends at ends
      split at ends
      · next runs =>
        rw [runs, ends.unfinished]
        exact earlier
      · next runs =>
        rw [runs] at last
        contradiction

/-- Whatever was loaded before, a path loads as it would in a new session, or fails as it would
there; but a file that an earlier failure left unfinished is refused as a circular import when it is
imported. -/
theorem loads_like_fresh (finite : srcs.Finite files) (cfg : BuildConfig) (earlier : List Path) (path : Path) :
    let used := history srcs cfg earlier
    let again := (Load.path srcs cfg path).run.run used
    let fresh := (Load.path srcs cfg path).run.run {}
    ((∃ idx prog idx' prog', again.1 = .ok idx ∧ again.2.program idx = .ok prog ∧
        fresh.1 = .ok idx' ∧ fresh.2.program idx' = .ok prog' ∧ prog.unlinked = prog'.unlinked) ∨
      ∃ cause cause', again.1 = .error cause ∧ fresh.1 = .error cause' ∧
      (cause = cause' ∨ Refuses srcs used path cause)) ∧
    (∀ loc other, again.1 = .error (.name loc (.circularImport other)) → other ∈ used.unfinished ∨
      ∃ file, srcs.canonical? path = some file ∧ srcs.Reaches file other ∧ srcs.Reaches other loc.file ∧
        srcs.Imports loc.file other) ∧
    (∀ file ∈ used.unfinished, srcs.Broken file) ∧
    ((∀ before path later, earlier = before ++ path :: later →
        ((Load.path srcs cfg path).run.run (history srcs cfg before)).1.isOk) →
      used.unfinished = []) := by
  have orderly := history_orderly finite cfg earlier
  refine ⟨outcome_like_fresh finite cfg orderly path, ?_, orderly.broken, unfinished_history finite earlier⟩
  intro loc other fails
  exact circular_of_path finite cfg orderly fails

/-- One file imports what there is not, the other one imports that file. -/
def stranded : Disk := Disk.ofFiles [("b.tern", "import nowhere"), ("a.tern", "import b")]

theorem stranded_finite : (stranded.sources none).Finite (stranded.nodes.keys.map Disk.pathOf) :=
  Disk.sources_finite none (List.forall_mem_nil _)

/-- The cause of a failure over a name. -/
def nameFailure? {α : Type} : Except Error α → Option (Location × NameError)
  | .error (.name loc cause) => some (loc, cause)
  | _ => none

theorem eq_of_nameFailure? {α : Type} {outcome : Except Error α} {loc : Location}
    {cause : NameError} (found : nameFailure? outcome = some (loc, cause)) :
    outcome = .error (.name loc cause) := by
  unfold nameFailure? at found
  split at found
  · cases found
    rfl
  · contradiction

/-- The second file is loaded after the first one, and alone. -/
theorem stranded_runs :
    nameFailure? ((Load.path (stranded.sources none) ⟨Fin.last 3, .object⟩ ⟨"a.tern"⟩).run.run
      (history (stranded.sources none) ⟨Fin.last 3, .object⟩ [⟨"b.tern"⟩])).1 =
        some (⟨⟨"/a.tern"⟩, 1⟩, .circularImport ⟨"/b.tern"⟩) ∧
    nameFailure?
      ((Load.path (stranded.sources none) ⟨Fin.last 3, .object⟩ ⟨"a.tern"⟩).run.run {}).1 =
        some (⟨⟨"/b.tern"⟩, 1⟩, .unknownModule "nowhere") ∧
    (history (stranded.sources none) ⟨Fin.last 3, .object⟩ [⟨"b.tern"⟩]).unfinished =
      [⟨"/b.tern"⟩] ∧
    ((stranded.sources none).program ⟨"/b.tern"⟩).toOption.all fun prog =>
      prog.importRequests.all fun req =>
        ((stranded.sources none).find? prog.directory req.name).isNone := by
  decide +kernel

theorem stranded_loads_like_fresh :
    (stranded.sources none).Finite (stranded.nodes.keys.map Disk.pathOf) ∧
    (stranded.sources none).Broken ⟨"/b.tern"⟩ := by
  have broken := (loads_like_fresh stranded_finite ⟨Fin.last 3, .object⟩ [⟨"b.tern"⟩] ⟨"a.tern"⟩).2.2.1
  rw [stranded_runs.2.2.1] at broken
  exact ⟨stranded_finite, broken _ List.mem_cons_self⟩

theorem not_imports {other : Path} (missing : (srcs.program file).toOption.all fun prog =>
      prog.importRequests.all fun req => (srcs.find? prog.directory req.name).isNone) :
    ¬ srcs.Imports file other := by
  rintro ⟨prog, reads, req, mem, found⟩
  rw [reads] at missing
  have none := List.all_eq_true.mp missing req mem
  rw [found] at none
  contradiction

/-- A file that could not be loaded is imported afterwards: this is called circular, though that
file imports nothing. -/
theorem unfinished_called_circular :
    ((Load.path (stranded.sources none) ⟨Fin.last 3, .object⟩ ⟨"a.tern"⟩).run.run
      (history (stranded.sources none) ⟨Fin.last 3, .object⟩ [⟨"b.tern"⟩])).1 =
        .error (.name ⟨⟨"/a.tern"⟩, 1⟩ (.circularImport ⟨"/b.tern"⟩)) ∧
    ((Load.path (stranded.sources none) ⟨Fin.last 3, .object⟩ ⟨"a.tern"⟩).run.run {}).1 =
        .error (.name ⟨⟨"/b.tern"⟩, 1⟩ (.unknownModule "nowhere")) ∧
    ∀ file, ¬ (stranded.sources none).Imports ⟨"/b.tern"⟩ file := by
  obtain ⟨again, fresh, -, missing⟩ := stranded_runs
  exact ⟨eq_of_nameFailure? again, eq_of_nameFailure? fresh, fun _ => not_imports missing⟩

end TernLang.Load
