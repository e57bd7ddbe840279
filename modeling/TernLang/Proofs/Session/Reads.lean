import TernLang.Proofs.Session.Caching

/-! Which files loading reads. With sources that note the name of every file that is read, loading
does otherwise what it does without, and what is noted are the new entries of the cache in their
order; so no file is read twice. More depth than a load needs makes no difference. -/
namespace TernLang

/-- The same files. A list keeps the name of every file that is read. -/
def Sources.noting (srcs : Sources) : Sources (StateM (List Path)) where
  canonical? := srcs.canonical?
  read? file := do
    modify (· ++ [file])
    return srcs.read? file
  find? := srcs.find?
  depth := srcs.depth

namespace Load

variable {α β : Type} {srcs : Sources} {cfg : BuildConfig} {cache : Cache}

/-- Both do the same, and what is noted on the way are the new entries. -/
def Notes (work : LoadT (StateM (List Path)) α) (plain : Load α) : Prop :=
  ∀ cache notes, ∃ read, (work.run.run cache).run notes = (plain.run.run cache, notes ++ read) ∧
    (plain.run.run cache).2.entries.map (·.file) = cache.entries.map (·.file) ++ read

theorem run_readProgram_noting (file : Path) (next : Program → LoadT (StateM (List Path)) β)
    (cache : Cache) (notes : List Path) :
    ((readProgram srcs.noting file >>= next).run.run cache).run notes =
      ((liftM (srcs.program file) >>= next).run.run cache).run (notes ++ [file]) := by
  have reads : srcs.noting.read? file = (do modify (· ++ [file]); return srcs.read? file) := rfl
  rw [readProgram, Sources.program, reads]
  cases srcs.read? file with
  | none => rfl
  | some src => rfl

namespace Notes

theorem pure (res : α) : Notes (Pure.pure res) (Pure.pure res) :=
  fun cache notes => ⟨[], by rw [List.append_nil]; rfl, by rw [List.append_nil]; rfl⟩

theorem throw (cause : Error) :
    Notes (α := α) (MonadExcept.throw cause) (MonadExcept.throw cause) :=
  fun cache notes => ⟨[], by rw [List.append_nil]; rfl, by rw [List.append_nil]; rfl⟩

theorem bind (first : Notes work plain) (andThen : ∀ res, Notes (next res) (next' res)) :
    Notes (work >>= next) (plain >>= next') := by
  intro cache notes
  obtain ⟨early, runs, entries⟩ := first cache notes
  rw [ExceptT.run_bind, StateT.run_bind, StateT.run_bind, ExceptT.run_bind, StateT.run_bind, runs]
  revert entries
  rcases plain.run.run cache with ⟨outcome, between⟩
  intro entries
  cases outcome with
  | error cause => exact ⟨early, rfl, entries⟩
  | ok res =>
    obtain ⟨late, runs, more⟩ := andThen res between (notes ++ early)
    refine ⟨early ++ late, ?_, ?_⟩
    · rw [← List.append_assoc]
      exact runs
    · rw [← List.append_assoc, ← entries]
      exact more

theorem get (andThen : ∀ cache, Notes (next cache) (next' cache)) :
    Notes (MonadState.get >>= next) (MonadState.get >>= next') :=
  fun cache => andThen cache cache

theorem lift (outcome : Except Error α) : Notes (liftM outcome) (liftM outcome) := by
  cases outcome with
  | error cause => exact throw cause
  | ok res => exact pure res

theorem finish (idx : Nat) (prog : Program) :
    Notes (modify (·.finish idx prog)) (modify (·.finish idx prog)) := by
  intro cache notes
  refine ⟨[], by rw [List.append_nil]; rfl, ?_⟩
  rw [List.append_nil]
  exact Cache.files_finish cache idx prog

theorem foldlM (items : List α) (each : ∀ state item, Notes (step state item) (step' state item))
    (state : β) :
    Notes (items.foldlM step state) (items.foldlM step' state) := by
  induction items generalizing state with
  | nil => exact pure state
  | cons item rest ih =>
    rw [List.foldlM_cons, List.foldlM_cons]
    exact (each state item).bind ih

/-- Only a file that gets an entry is read. -/
theorem enter {file : Path} {next : Nat → Program → LoadT (StateM (List Path)) β}
    {next' : Nat → Program → Load β}
    (andThen : ∀ idx prog, Notes (next idx prog) (next' idx prog)) :
    Notes (Load.enter file >>= fun idx => readProgram srcs.noting file >>= next idx)
      (Load.enter file >>= fun idx => readProgram srcs file >>= next' idx) := by
  intro cache notes
  rw [ExceptT.run_bind, StateT.run_bind, StateT.run_bind, ExceptT.run_bind, StateT.run_bind,
    run_enter, run_enter, Cache.create?]
  cases cache.find? file with
  | some idx => exact throw _ cache notes
  | none =>
    have reads := (lift (srcs.program file)).bind (andThen cache.size)
    obtain ⟨read, runs, entries⟩ := reads ⟨cache.entries ++ [⟨file, { file }, false⟩]⟩ (notes ++ [file])
    refine ⟨file :: read, ?_, ?_⟩
    · rw [List.append_cons notes, readProgram_eq]
      exact (run_readProgram_noting file (next _) _ notes).trans runs
    · rw [List.append_cons (cache.entries.map _), readProgram_eq]
      rw [List.map_append] at entries
      exact entries

end Notes

theorem visited?_notes (file : Path) (importedAt : Option Location) :
    Notes (visited? file importedAt) (visited? file importedAt) := by
  refine .get fun cache => ?_
  cases cache.find? file with
  | none => exact .pure none
  | some idx =>
    dsimp only
    split
    · exact .pure (some idx)
    · cases importedAt with
      | none => exact .throw _
      | some loc => exact .throw _

theorem importOne_notes (cfg : BuildConfig)
    {load : Path → Location → LoadT (StateM (List Path)) (Nat × Bool)}
    (loads : ∀ file loc, Notes (load file loc) (load' file loc)) (prog : Program)
    (req : ImportRequest) :
    Notes (importOne srcs.noting cfg load prog req) (importOne srcs cfg load' prog req) := by
  unfold importOne
  rw [show srcs.noting.find? = srcs.find? from rfl]
  cases srcs.find? prog.directory req.name with
  | none => exact .throw _
  | some file =>
    refine (loads _ _).bind fun loaded => .get fun cache => (Notes.lift _).bind fun other => ?_
    exact (Notes.lift _).bind fun _ => .pure _

theorem file_notes (srcs : Sources) (cfg : BuildConfig) (depth : Nat) (file : Path)
    (importedAt : Option Location) :
    Notes (Load.file srcs.noting cfg depth file importedAt)
      (Load.file srcs cfg depth file importedAt) := by
  induction depth generalizing file importedAt with
  | zero => exact .throw _
  | succ depth ih =>
    refine (visited?_notes file importedAt).bind fun found => ?_
    cases found with
    | some idx => exact .pure _
    | none =>
      refine .enter fun idx prog => ?_
      apply (Notes.foldlM _ (importOne_notes cfg fun imported loc => ih imported (some loc)) prog).bind
      intro merged
      exact (Notes.finish idx merged).bind fun _ => .pure _

/-- What loading a path reads are the entries that it adds. -/
theorem path_notes (srcs : Sources) (cfg : BuildConfig) (path : Path) :
    Notes (Load.path srcs.noting cfg path) (Load.path srcs cfg path) := by
  unfold Load.path
  rw [show srcs.noting.canonical? = srcs.canonical? from rfl]
  cases srcs.canonical? path with
  | none => exact .throw _
  | some file => exact (file_notes srcs cfg _ file none).bind fun _ => .pure _

/-! More depth. -/

/-- A load that does not come to its depth is the same with more of it. -/
def Deepens (shallow deep : Load α) : Prop :=
  ∀ cache, (∀ file, (shallow.run.run cache).1 ≠ .error (.session (.tooDeep file))) →
    deep.run.run cache = shallow.run.run cache

namespace Deepens

theorem refl (work : Load α) : Deepens work work := fun _ _ => rfl

theorem trans (once : Deepens first second) (again : Deepens second third) :
    Deepens first third := by
  intro cache enough
  have same := once cache enough
  rw [← same] at enough ⊢
  exact again cache enough

theorem bind (first : Deepens shallow deep) (andThen : ∀ res, Deepens (next res) (next' res)) :
    Deepens (shallow >>= next) (deep >>= next') := by
  intro cache enough
  rw [ExceptT.run_bind, StateT.run_bind] at enough
  have same : deep.run.run cache = shallow.run.run cache := by
    apply first
    intro file gives
    apply enough file
    revert gives
    rcases shallow.run.run cache with ⟨outcome, between⟩
    rintro ⟨⟩
    rfl
  rw [ExceptT.run_bind, StateT.run_bind, ExceptT.run_bind, StateT.run_bind, same]
  revert enough
  rcases shallow.run.run cache with ⟨outcome, between⟩
  intro enough
  cases outcome with
  | error cause => rfl
  | ok res => exact andThen res between enough

theorem foldlM (items : List α) (each : ∀ state item, Deepens (step state item) (step' state item))
    (state : β) :
    Deepens (items.foldlM step state) (items.foldlM step' state) := by
  induction items generalizing state with
  | nil => exact refl _
  | cons item rest ih =>
    rw [List.foldlM_cons, List.foldlM_cons]
    exact (each state item).bind ih

end Deepens

theorem importOne_deepens (cfg : BuildConfig)
    (loads : ∀ file loc, Deepens (load file loc) (load' file loc)) (prog : Program)
    (req : ImportRequest) :
    Deepens (importOne srcs cfg load prog req) (importOne srcs cfg load' prog req) := by
  unfold importOne
  cases srcs.find? prog.directory req.name with
  | none => exact .refl _
  | some file => exact (loads _ _).bind fun _ => .refl _

theorem file_deepens (srcs : Sources) (cfg : BuildConfig) (depth : Nat) (file : Path)
    (importedAt : Option Location) :
    Deepens (Load.file srcs cfg depth file importedAt)
      (Load.file srcs cfg (depth + 1) file importedAt) := by
  induction depth generalizing file importedAt with
  | zero => exact fun _ enough => absurd rfl (enough file)
  | succ depth ih =>
    apply (Deepens.refl (visited? file importedAt)).bind
    intro found
    cases found with
    | some idx => exact .refl _
    | none =>
      apply (Deepens.refl (enter file)).bind
      intro idx
      apply (Deepens.refl (readProgram srcs file)).bind
      intro prog
      apply (Deepens.foldlM _ (importOne_deepens cfg fun imported loc => ih imported (some loc)) prog).bind
      exact fun _ => .refl _

theorem file_deepens_le (srcs : Sources) (cfg : BuildConfig) (le : depth ≤ more) (file : Path)
    (importedAt : Option Location) :
    Deepens (Load.file srcs cfg depth file importedAt) (Load.file srcs cfg more file importedAt) :=
      by
  induction le with
  | refl => exact .refl _
  | step _ ih => exact ih.trans (file_deepens srcs cfg _ file importedAt)

end Load
end TernLang
