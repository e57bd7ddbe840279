import Mathlib.Data.List.Induction
import TernLang.Proofs.Program.Unlinked
import TernLang.Proofs.Session.Imports

/-! Loading with a cache gives what following the imports anew would give. Finished entries hold
what their files assemble to, and everything below them is finished, so no finished entry stands in
the way of what is loaded next. The files of unfinished entries are refused: those further up on
the import path, and those whose loading failed before, none of which can be assembled. -/
namespace TernLang
open Sources List

def Cache.unfinished (cache : Cache) : List Path :=
  (cache.entries.filter (! ·.isReady)).map (·.file)

/-- Every file has one entry, and a finished one holds what the file assembles to. -/
structure Cache.Tidy (srcs : Sources) (cache : Cache) : Prop where
  distinct : (cache.entries.map (·.file)).Nodup
  named : ∀ entry ∈ cache.entries, srcs.Names entry.file
  ready : ∀ entry ∈ cache.entries, entry.isReady →
    srcs.Assembles entry.file entry.program.unlinked ∧
    ∀ imported, srcs.Imports entry.file imported → ∃ other ∈ cache.entries, other.isReady ∧
      other.file = imported

variable {srcs : Sources} {files blocked : List Path} {file : Path} {cache before after : Cache}
  {entry : Cache.Entry} {prog : Program} {depth : Nat} {importedAt : Option Location}
  {cause : Error}

/-! Entries. -/

namespace Cache

theorem mem_unfinished :
    file ∈ cache.unfinished ↔ ∃ entry ∈ cache.entries, entry.isReady = false ∧
      entry.file = file := by
  simp [unfinished, and_assoc]

theorem unfinished_append (first second : List Entry) :
    unfinished ⟨first ++ second⟩ = unfinished ⟨first⟩ ++ unfinished ⟨second⟩ := by
  simp [unfinished]

theorem unfinished_adds {post : Entry → Prop} (adds : Adds post cache.entries after.entries)
    (ready : ∀ entry, post entry → entry.isReady) : after.unfinished = cache.unfinished := by
  obtain ⟨added, entries, each⟩ := adds
  have none : added.filter (! ·.isReady) = [] := by
    apply filter_eq_nil_iff.mpr
    intro entry mem
    simp [ready entry (each entry mem)]
  rw [unfinished, entries, filter_append, none, append_nil]
  rfl

theorem tidy_empty (srcs : Sources) : Tidy srcs {} := ⟨.nil, forall_mem_nil _, forall_mem_nil _⟩

namespace Tidy

section
variable (tidy : cache.Tidy srcs)
include tidy

theorem not_unfinished (mem : entry ∈ cache.entries) (ready : entry.isReady) :
    entry.file ∉ cache.unfinished := by
  rw [mem_unfinished]
  rintro ⟨other, there, unready, same⟩
  cases inj_on_of_nodup_map tidy.distinct there mem same
  rw [ready] at unready
  contradiction

/-- Everything below a finished entry is finished. -/
theorem of_reaches (mem : entry ∈ cache.entries) (ready : entry.isReady)
    (reaches : srcs.Reaches entry.file file) :
    ∃ other ∈ cache.entries, other.isReady ∧ other.file = file := by
  induction reaches with
  | refl => exact ⟨entry, mem, ready, rfl⟩
  | tail _ last ih =>
    obtain ⟨other, there, done, rfl⟩ := ih
    exact (tidy.ready other there done).2 _ last

/-- The cached program is the one that following the imports gives. -/
theorem assemble_eq (finite : srcs.Finite files) (mem : entry ∈ cache.entries)
    (ready : entry.isReady) (room : Room files depth cache.unfinished)
    (importedAt : Option Location) :
    srcs.assemble depth cache.unfinished entry.file importedAt = .ok entry.program.unlinked := by
  apply assemble_of_assembles finite (tidy.ready entry mem ready).1 (tidy.named entry mem) room
  intro other reaches
  obtain ⟨found, there, done, rfl⟩ := tidy.of_reaches mem ready reaches
  exact tidy.not_unfinished there done

theorem enter (names : srcs.Names file) (missing : file ∉ cache.entries.map (·.file)) :
    Tidy srcs ⟨cache.entries ++ [⟨file, { file }, false⟩]⟩ where
  distinct := by
    rw [map_append]
    exact nodup_append'.mpr ⟨tidy.distinct, nodup_singleton _, disjoint_singleton.mpr missing⟩
  named := forall_mem_append.mpr ⟨tidy.named, forall_mem_singleton.mpr names⟩
  ready := by
    intro entry mem ready
    rcases mem_append.mp mem with mem | last
    · refine (tidy.ready entry mem ready).imp_right fun each imported imports => ?_
      obtain ⟨other, there, done⟩ := each imported imports
      exact ⟨other, mem_append_left _ there, done⟩
    · cases mem_singleton.mp last
      contradiction

end

theorem finish (tidy : Tidy srcs ⟨first ++ ⟨file, { file }, false⟩ :: second⟩)
    (assembles : srcs.Assembles file prog.unlinked)
    (imported : ∀ imported, srcs.Imports file imported →
      ∃ other ∈ first ++ ⟨file, { file }, false⟩ :: second, other.isReady ∧ other.file = imported) :
    Tidy srcs ⟨first ++ ⟨file, prog, true⟩ :: second⟩ := by
  have kept (imported : Path)
      (found : ∃ other ∈ first ++ ⟨file, { file }, false⟩ :: second, other.isReady ∧ other.file = imported) :
      ∃ other ∈ first ++ ⟨file, prog, true⟩ :: second, other.isReady ∧ other.file = imported := by
    obtain ⟨other, mem, ready, same⟩ := found
    refine ⟨other, ?_, ready, same⟩
    simp only [mem_append, mem_cons] at mem ⊢
    rcases mem with mem | rfl | mem
    · exact .inl mem
    · contradiction
    · exact .inr (.inr mem)
  have old (entry : Entry) (mem : entry ∈ first ++ ⟨file, prog, true⟩ :: second) :
      entry ∈ first ++ ⟨file, { file }, false⟩ :: second ∨ entry = ⟨file, prog, true⟩ := by
    simp only [mem_append, mem_cons] at mem ⊢
    tauto
  refine ⟨?_, fun entry mem => ?_, fun entry mem ready => ?_⟩
  · simpa only [map_append, map_cons] using tidy.distinct
  · rcases old entry mem with mem | rfl
    · exact tidy.named entry mem
    · exact tidy.named ⟨file, { file }, false⟩ mem_append_cons_self
  · rcases old entry mem with mem | rfl
    · exact (tidy.ready entry mem ready).imp_right fun each found imports => kept found (each found imports)
    · exact ⟨assembles, fun found imports => kept found (imported found imports)⟩

end Tidy

theorem finish_append (first second : List Entry) (prog : Program) :
    Cache.finish ⟨first ++ entry :: second⟩ first.length prog =
      ⟨first ++ { entry with program := prog, isReady := true } :: second⟩ := by
  rw [finish, mk.injEq]
  induction first with
  | nil => rfl
  | cons other rest ih => exact congrArg (other :: ·) ih

end Cache

/-! The steps of loading. -/

namespace Load
variable {α β : Type} {mid : α → Cache → Prop} {post : β → Cache → Prop}
  {fault : Error → Cache → Prop} {next : α → Load β} {work : Load α}

/-- A result is as stated, and so is a failure, with the cache that it leaves. -/
def Ends (post : β → Cache → Prop) (fault : Error → Cache → Prop) (cache : Cache) (work : Load β) :
    Prop :=
  match work.run.run cache with
  | (.ok res, after) => post res after
  | (.error cause, after) => fault cause after

namespace Ends

theorem pure (holds : post res cache) : Ends post fault cache (Pure.pure res) := holds

theorem throw (holds : fault cause cache) : Ends post fault cache (MonadExcept.throw cause) := holds

theorem bind (first : Ends mid fault cache work)
    (andThen : ∀ res between, mid res between → Ends post fault between (next res)) :
    Ends post fault cache (work >>= next) := by
  unfold Ends at first ⊢
  rw [ExceptT.run_bind, StateT.run_bind]
  revert first
  rcases work.run.run cache with ⟨outcome, between⟩
  intro first
  cases outcome with
  | error cause => exact first
  | ok res => exact andThen res between first

theorem get {next : Cache → Load β} (andThen : Ends post fault cache (next cache)) :
    Ends post fault cache (MonadState.get >>= next) := andThen

theorem of_ok (runs : work.run.run cache = (.ok res, between))
    (andThen : Ends post fault between (next res)) :
    Ends post fault cache (work >>= next) := by
  unfold Ends
  rw [ExceptT.run_bind, StateT.run_bind, runs]
  exact andThen

theorem of_error (runs : work.run.run cache = (.error cause, after))
    (holds : fault cause after) : Ends post fault cache (work >>= next) := by
  unfold Ends
  rw [ExceptT.run_bind, StateT.run_bind, runs]
  exact holds

theorem given (andThen : Ends post fault cache (next val)) :
    Ends post fault cache (liftM (Except.ok val : Except Error α) >>= next) := andThen

theorem lift_bind {outcome : Except Error α}
    (fails : ∀ cause, outcome = .error cause → fault cause cache)
    (andThen : ∀ res, outcome = .ok res → Ends post fault cache (next res)) :
    Ends post fault cache (liftM outcome >>= next) := by
  cases outcome with
  | error cause => exact fails cause rfl
  | ok res => exact andThen res rfl

theorem change (change : Cache → Cache) {next : PUnit → Load β}
    (andThen : Ends post fault (change cache) (next ⟨⟩)) :
    Ends post fault cache (modify change >>= next) := andThen

theorem mono {post' : β → Cache → Prop} {fault' : Error → Cache → Prop} {work : Load β}
    (ends : Ends post fault cache work) (implies : ∀ res after, post res after → post' res after)
    (fails : ∀ cause after, fault cause after → fault' cause after) :
    Ends post' fault' cache work := by
  unfold Ends at ends ⊢
  split at ends
  · exact implies _ _ ends
  · exact fails _ _ ends

end Ends

theorem run_visited? (file : Path) (importedAt : Option Location) (cache : Cache) :
    (visited? file importedAt : Load _).run.run cache = ((match cache.find? file with
      | none => Pure.pure none
      | some idx =>
        if (cache.get? idx).any (·.isReady) then Pure.pure (some idx)
        else MonadExcept.throw (refusal file importedAt) : Load (Option Nat)).run.run cache) := by
  cases importedAt with
  | none => rfl
  | some loc => rfl

theorem visited?_cases (finite : srcs.Finite files) (tidy : cache.Tidy srcs)
    (names : srcs.Names file) (importedAt : Option Location) :
    cache.find? file = none ∧ file ∉ cache.entries.map (·.file) ∧
      (visited? file importedAt : Load _).run.run cache = (.ok none, cache) ∨
    (∃ idx entry, cache.get? idx = some entry ∧ entry.isReady ∧ entry.file = file ∧
      (visited? file importedAt : Load _).run.run cache = (.ok (some idx), cache)) ∨
    file ∈ cache.unfinished ∧ (visited? file importedAt : Load _).run.run cache =
      (.error (refusal file importedAt), cache) := by
  rw [run_visited?]
  cases found : cache.find? file with
  | none =>
    refine .inl ⟨rfl, ?_, rfl⟩
    intro mem
    obtain ⟨entry, there, rfl⟩ := mem_map.mp mem
    have other := findIdx?_eq_none_iff.mp found entry there
    rw [Path.same_refl] at other
    contradiction
  | some idx =>
    obtain ⟨entry, there, same⟩ := Cache.exists_of_find? found
    have mem : entry ∈ cache.entries := mem_of_getElem? there
    have same : entry.file = file := finite.single _ _ (tidy.named entry mem) names same
    dsimp only
    rw [there, Option.any_some]
    cases ready : entry.isReady with
    | true => exact .inr (.inl ⟨idx, entry, there, ready, same, rfl⟩)
    | false => exact .inr (.inr ⟨Cache.mem_unfinished.mpr ⟨entry, mem, ready, same⟩, rfl⟩)

/-- The outcome of loading a file is the one given: its program is at the index, behind what was
there is only what is finished. -/
structure Gives (srcs : Sources) (file : Path) (outcome : Except Error Program) (before : Cache)
    (idx : Nat) (after : Cache) :
    Prop where
  tidy : after.Tidy srcs
  adds :
    Adds (fun entry => entry.isReady ∧ srcs.Reaches file entry.file) before.entries after.entries
  here : ∃ entry, after.get? idx = some entry ∧ entry.isReady ∧ entry.file = file ∧
    outcome = .ok entry.program.unlinked

/-- The outcome of loading is the one given, and unfinished entries are left of broken files only.
-/
structure Fails (srcs : Sources) (outcome : Except Error Program) (before : Cache) (cause : Error)
    (after : Cache) : Prop where
  outcome : outcome = .error cause
  tidy : after.Tidy srcs
  left : ∀ file ∈ after.unfinished, file ∈ before.unfinished ∨ srcs.Broken file

/-- Loading does what following the imports does when unfinished files are blocked. -/
def Agrees (srcs : Sources) (files : List Path) (depth : Nat) (importedAt : Option Location)
    (load : Path → Load (Nat × Bool)) : Prop :=
  ∀ file cache, cache.Tidy srcs → srcs.Names file → Room files depth cache.unfinished →
    (∀ other ∈ cache.unfinished, srcs.Broken other ∨ Relation.TransGen srcs.Imports other file) →
    Ends (fun res after => Gives srcs file (srcs.assemble depth cache.unfinished file importedAt) cache res.1 after)
      (Fails srcs (srcs.assemble depth cache.unfinished file importedAt) cache) cache (load file)

variable (cfg : BuildConfig)

section
variable {load : Path → Location → Load (Nat × Bool)} {reqs : List ImportRequest}
  {req : ImportRequest} {outcome : Except Error Program}

theorem Gives.unfinished (gives : Gives srcs file outcome before idx after) :
    after.unfinished = before.unfinished := Cache.unfinished_adds gives.adds fun _ => And.left

/-- What is imported while some files are blocked. -/
def supplied (srcs : Sources) (depth : Nat) (blocked : List Path) (imported : Path)
    (loc : Location) : Except Error Program :=
  srcs.assemble depth blocked imported (some loc)

/-- What importing into a program of a file does. -/
structure Merged (srcs : Sources) (file : Path) (outcome : Except Error Program) (before : Cache)
    (merged : Program) (after : Cache) :
    Prop where
  tidy : after.Tidy srcs
  adds :
    Adds (fun entry => entry.isReady ∧ srcs.Reaches file entry.file) before.entries after.entries
  named : merged.file = file
  outcome : outcome = .ok merged.unlinked

theorem mergeOne_unlinked (srcs : Sources) (supply : Path → Location → Except Error Program) (prog : Program)
    (req : ImportRequest) :
    srcs.mergeOne supply prog.unlinked req = match srcs.find? prog.directory req.name with
      | none => .error (.name (prog.location req.line) (.unknownModule req.name))
      | some imported => do
        let other ← supply imported (prog.location req.line)
        (prog.unlinked.merge other req.isPublic).1
        return (prog.unlinked.merge other req.isPublic).2 := rfl

theorem importOne_agrees (loads : ∀ loc, Agrees srcs files depth (some loc) (load · loc))
    (tidy : cache.Tidy srcs) (room : Room files depth cache.unfinished)
    (waiting : ∀ other ∈ cache.unfinished, srcs.Broken other ∨ srcs.Reaches other file)
    (named : prog.file = file) (imports : ∀ imported,
      srcs.find? prog.directory req.name = some imported → srcs.Imports file imported) :
    Ends (fun merged after =>
        Merged srcs file (srcs.mergeOne (supplied srcs depth cache.unfinished) prog.unlinked req)
          cache merged after ∧
        ∃ imported, srcs.find? prog.directory req.name = some imported ∧
          ∃ entry ∈ after.entries, entry.isReady ∧ entry.file = imported)
      (Fails srcs (srcs.mergeOne (supplied srcs depth cache.unfinished) prog.unlinked req) cache)
        cache
      (importOne srcs cfg load prog req) := by
  have spec := mergeOne_unlinked srcs (supplied srcs depth cache.unfinished) prog req
  unfold importOne
  dsimp only
  cases found : srcs.find? prog.directory req.name with
  | none =>
    rw [found] at spec
    exact .throw ⟨spec, tidy, fun _ mem => .inl mem⟩
  | some imported =>
    rw [found] at spec
    dsimp only at spec ⊢
    have imports := imports imported found
    have above (other : Path) (mem : other ∈ cache.unfinished) : srcs.Broken other ∨
        Relation.TransGen srcs.Imports other imported :=
      (waiting other mem).imp_right fun reaches => .tail' reaches imports
    refine Ends.bind ((loads _ imported cache tidy imports.names room above).mono (fun _ _ => id) ?_) ?_
    · rintro cause after ⟨outcome, tidy, left⟩
      rw [supplied, outcome] at spec
      exact ⟨spec, tidy, left⟩
    · rintro ⟨idx, isFresh⟩ after gives
      obtain ⟨entry, there, ready, same, outcome⟩ := gives.here
      have given : after.program idx = .ok entry.program := by
        rw [Cache.program, there]
        rfl
      have adds : Adds (fun entry => entry.isReady ∧ srcs.Reaches file entry.file) cache.entries after.entries := by
        obtain ⟨added, entries, each⟩ := gives.adds
        exact ⟨added, entries, fun entry mem => (each entry mem).imp_right (.head imports)⟩
      have grows := Program.merge_grows prog entry.program req.isPublic
      rw [supplied, outcome] at spec
      replace spec := spec.trans (pure_bind entry.program.unlinked _)
      rw [Program.merge_unlinked] at spec
      apply Ends.get
      rw [given]
      apply Ends.given
      cases merges : prog.merge entry.program req.isPublic with
      | mk res merged =>
        rw [merges] at spec grows
        apply Ends.lift_bind
        · rintro cause rfl
          exact ⟨spec, gives.tidy, fun other mem => .inl (gives.unfinished ▸ mem)⟩
        · rintro _ rfl
          exact ⟨⟨gives.tidy, adds, grows.file.trans named, spec⟩, imported, rfl, entry,
            mem_of_getElem? there, ready, same⟩

theorem imports_agree (loads : ∀ loc, Agrees srcs files depth (some loc) (load · loc))
    (tidy : cache.Tidy srcs) (unfinished : cache.unfinished = blocked)
    (room : Room files depth blocked)
    (waiting : ∀ other ∈ blocked, srcs.Broken other ∨ srcs.Reaches other file)
    (named : prog.file = file) (imports : ∀ req ∈ reqs, ∀ imported,
      srcs.find? prog.directory req.name = some imported → srcs.Imports file imported) :
    Ends (fun merged after =>
        Merged srcs file (reqs.foldlM (srcs.mergeOne (supplied srcs depth blocked)) prog.unlinked)
          cache merged after ∧
        ∀ req ∈ reqs, ∃ imported, srcs.find? prog.directory req.name = some imported ∧
          ∃ entry ∈ after.entries, entry.isReady ∧ entry.file = imported)
      (Fails srcs (reqs.foldlM (srcs.mergeOne (supplied srcs depth blocked)) prog.unlinked) cache)
        cache
      (reqs.foldlM (importOne srcs cfg load) prog) := by
  induction reqs generalizing prog cache with
  | nil => exact .pure ⟨⟨tidy, .refl _ _, named, rfl⟩, forall_mem_nil _⟩
  | cons req rest ih =>
    obtain ⟨first, later⟩ := forall_mem_cons.mp imports
    subst unfinished
    rw [foldlM_cons, foldlM_cons]
    refine Ends.bind ((importOne_agrees cfg loads tidy room waiting named first).mono (fun _ _ => id) ?_) ?_
    · rintro cause after ⟨outcome, tidy, left⟩
      rw [outcome]
      exact ⟨rfl, tidy, left⟩
    · rintro merged between ⟨here, found⟩
      have alike : merged.directory = prog.directory :=
        congrArg (fun file : Path => file.parent?.getD ⟨"."⟩) (here.named.trans named.symm)
      have same : between.unfinished = cache.unfinished := Cache.unfinished_adds here.adds fun _ => And.left
      have others := ih here.tidy same here.named (by rwa [alike])
      rw [alike] at others
      rw [here.outcome]
      refine others.mono ?_ ?_
      · rintro last after ⟨there, each⟩
        refine ⟨⟨there.tidy, here.adds.trans there.adds, there.named, there.outcome⟩, forall_mem_cons.mpr ⟨?_, each⟩⟩
        obtain ⟨imported, found, entry, mem, done⟩ := found
        exact ⟨imported, found, entry, there.adds.subset mem, done⟩
      · rintro cause after ⟨outcome, tidy, left⟩
        exact ⟨outcome, tidy, same ▸ left⟩

theorem run_enter {m : Type → Type} [Monad m] [LawfulMonad m] (file : Path) (cache : Cache) :
    (enter file : LoadT m Nat).run.run cache = Pure.pure (match cache.create? file with
      | some (idx, cache) => (.ok idx, cache)
      | none => (.error (.session (.alreadyCached file)), cache)) := by
  have gets : (get : LoadT m Cache).run.run cache = Pure.pure (.ok cache, cache) := pure_bind _ _
  rw [enter, ExceptT.run_bind, StateT.run_bind, gets, pure_bind]
  dsimp only
  cases cache.create? file with
  | none => rfl
  | some created =>
    have sets : (set created.2 : LoadT m PUnit).run.run cache = Pure.pure (.ok ⟨⟩, created.2) :=
      pure_bind _ _
    dsimp only
    rw [ExceptT.run_bind, StateT.run_bind, sets, pure_bind]
    rfl

theorem enter_runs (missing : cache.find? file = none) :
    (enter file : Load _).run.run cache =
      (.ok cache.size, ⟨cache.entries ++ [⟨file, { file }, false⟩]⟩) := by
  rw [run_enter, Cache.create?, missing]
  rfl

theorem Merged.finish
    (here : Merged srcs file outcome ⟨cache.entries ++ [⟨file, { file }, false⟩]⟩ merged after)
    (assembles : srcs.Assembles file merged.unlinked) (ready : ∀ imported,
      srcs.Imports file imported → ∃ entry ∈ after.entries, entry.isReady ∧ entry.file = imported) :
    Gives srcs file outcome cache cache.size (after.finish cache.size merged) := by
  obtain ⟨added, entries, done⟩ := here.adds
  have whole : after = ⟨cache.entries ++ ⟨file, { file }, false⟩ :: added⟩ := by
    rw [append_assoc] at entries
    exact congrArg Cache.mk entries
  subst whole
  rw [Cache.size, Cache.finish_append]
  refine ⟨here.tidy.finish assembles ready, ⟨⟨file, merged, true⟩ :: added, rfl, ?_⟩,
    ⟨file, merged, true⟩, ?_, rfl, rfl, here.outcome⟩
  · exact forall_mem_cons.mpr ⟨⟨rfl, .refl⟩, done⟩
  · simp [Cache.get?]

/-- A file that has no entry. A failure leaves the one it gets, and the file is broken then. -/
theorem new_agrees (finite : srcs.Finite files) (cfg : BuildConfig)
    (loads : ∀ loc, Agrees srcs files depth (some loc) (Load.file srcs cfg depth · (some loc)))
    (tidy : cache.Tidy srcs) (names : srcs.Names file) (room : Room files (depth + 1) cache.unfinished)
    (waiting : ∀ other ∈ cache.unfinished, srcs.Broken other ∨ Relation.TransGen srcs.Imports other file)
    (new : file ∉ cache.entries.map (·.file)) {idx : Nat} (last : idx = cache.size) :
    Ends (fun res after =>
        Gives srcs file (srcs.assemble (depth + 1) cache.unfinished file importedAt) cache res.1 after)
      (Fails srcs (srcs.assemble (depth + 1) cache.unfinished file importedAt) cache)
      ⟨cache.entries ++ [⟨file, { file }, false⟩]⟩ (do
        let prog ← readProgram srcs file
        let load := fun imported loc => Load.file srcs cfg depth imported (some loc)
        let prog ← prog.importRequests.foldlM (importOne srcs cfg load) prog
        modify (·.finish idx prog)
        return (idx, true)) := by
  have fresh : file ∉ cache.unfinished := by
    rw [Cache.mem_unfinished]
    rintro ⟨entry, mem, -, rfl⟩
    exact new (mem_map_of_mem mem)
  have unfinished : Cache.unfinished ⟨cache.entries ++ [⟨file, { file }, false⟩]⟩ = cache.unfinished ++ [file] :=
    Cache.unfinished_append _ _
  have fails (cause : Error) (after : Cache)
      (outcome : srcs.assemble (depth + 1) cache.unfinished file importedAt = .error cause)
      (tidy : after.Tidy srcs) (left : ∀ other ∈ after.unfinished, other ∈
        cache.unfinished ++ [file] ∨ srcs.Broken other) :
      Fails srcs (srcs.assemble (depth + 1) cache.unfinished file importedAt) cache cause after := by
    refine ⟨outcome, tidy, fun other mem => ?_⟩
    rcases left other mem with before | broken
    · rcases mem_append.mp before with before | last
      · exact .inl before
      · rw [mem_singleton.mp last]
        exact .inr (broken_of_assemble finite names room waiting outcome)
    · exact .inr broken
  have tidy := tidy.enter names new
  rw [readProgram_eq]
  apply Ends.lift_bind
  · intro cause unread
    refine fails cause _ ?_ tidy fun other mem => .inl (unfinished ▸ mem)
    rw [assemble, if_neg fresh, unread]
    rfl
  · intro prog reads
    have parsed := fresh_of_program reads
    have spec : srcs.assemble (depth + 1) cache.unfinished file importedAt = prog.importRequests.foldlM
        (srcs.mergeOne (supplied srcs depth (cache.unfinished ++ [file]))) prog.unlinked := by
      have same : prog.unlinked = prog := by
        rw [Program.unlinked, ← parsed.dependencies]
      rw [assemble, if_neg fresh, reads, same]
      rfl
    have waiting : ∀ other ∈ cache.unfinished ++ [file], srcs.Broken other ∨ srcs.Reaches other file := by
      intro other mem
      rcases mem_append.mp mem with mem | last
      · exact (waiting other mem).imp_right Relation.TransGen.to_reflTransGen
      · rw [mem_singleton.mp last]
        exact .inr .refl
    have room := room.step (mem_of_program finite names reads) fresh
    have imported := imports_agree cfg loads tidy unfinished room waiting parsed.named
      fun req mem imported found => ⟨prog, reads, req, mem, found⟩
    rw [← spec] at imported
    refine Ends.bind (imported.mono (fun _ _ => id) ?_) ?_
    · rintro cause after ⟨outcome, tidy, left⟩
      exact fails cause after outcome tidy (unfinished ▸ left)
    · rintro merged after ⟨here, each⟩
      subst last
      apply Ends.change
      apply Ends.pure
      apply here.finish (assembles_of_assemble here.outcome)
      rintro imported ⟨prog, again, req, mem, found⟩
      cases again.symm.trans reads
      obtain ⟨imported', found', done⟩ := each req mem
      cases found'.symm.trans found
      exact done

/-- Loading does what following the imports anew does. -/
theorem file_agrees (finite : srcs.Finite files) (cfg : BuildConfig) (depth : Nat)
    (importedAt : Option Location) :
    Agrees srcs files depth importedAt (Load.file srcs cfg depth · importedAt) := by
  induction depth generalizing importedAt with
  | zero => exact fun _ _ _ _ room => absurd room (Nat.not_lt_zero _)
  | succ depth ih =>
    intro file cache tidy names room waiting
    rcases visited?_cases finite tidy names importedAt with
      ⟨missing, new, runs⟩ | ⟨idx, entry, there, ready, rfl, runs⟩ | ⟨unfinished, runs⟩
    · apply Ends.of_ok runs
      apply Ends.of_ok (enter_runs missing)
      exact new_agrees finite cfg (fun loc => ih (some loc)) tidy names room waiting new rfl
    · have given := tidy.assemble_eq finite (mem_of_getElem? there) ready room importedAt
      exact Ends.of_ok runs (.pure ⟨tidy, .refl _ _, entry, there, ready, rfl, given⟩)
    · refine Ends.of_error runs ⟨?_, tidy, fun _ mem => .inl mem⟩
      rw [assemble, if_pos unfinished]
      rfl

end

/-! Loading a path, again and again. -/

variable {path : Path}

/-- Nothing but files that cannot be assembled is left unfinished. -/
structure Orderly (srcs : Sources) (cache : Cache) : Prop where
  tidy : cache.Tidy srcs
  broken : ∀ file ∈ cache.unfinished, srcs.Broken file

theorem path_agrees (finite : srcs.Finite files) (cfg : BuildConfig) (orderly : Orderly srcs cache)
    (leads : srcs.canonical? path = some file) :
    Ends (Gives srcs file (srcs.assemble (srcs.depth + 1) cache.unfinished file none) cache)
      (Fails srcs (srcs.assemble (srcs.depth + 1) cache.unfinished file none) cache) cache
        (Load.path srcs cfg path) := by
  have loads := file_agrees finite cfg (srcs.depth + 1) none file cache orderly.tidy
    (.inl ⟨path, leads⟩) (finite.room _)
    fun other mem => .inl (orderly.broken other mem)
  unfold Load.path
  rw [leads]
  apply loads.bind
  intro res after gives
  exact .pure gives

theorem path_unknown (cache : Cache) (unknown : srcs.canonical? path = none) :
    (Load.path srcs cfg path).run.run cache = (.error (.cannotOpen path), cache) := by
  unfold Load.path
  rw [unknown]
  rfl

theorem path_outcome (finite : srcs.Finite files) (cfg : BuildConfig) (orderly : Orderly srcs cache)
    (leads : srcs.canonical? path = some file) :
    (∃ idx prog, ((Load.path srcs cfg path).run.run cache).1 = .ok idx ∧
      ((Load.path srcs cfg path).run.run cache).2.program idx = .ok prog ∧
      srcs.assemble (srcs.depth + 1) cache.unfinished file none = .ok prog.unlinked) ∨
    ∃ cause, ((Load.path srcs cfg path).run.run cache).1 = .error cause ∧
      srcs.assemble (srcs.depth + 1) cache.unfinished file none = .error cause := by
  have ends := path_agrees finite cfg orderly leads
  unfold Ends at ends
  split at ends
  · next idx after runs =>
    obtain ⟨entry, there, -, -, outcome⟩ := ends.here
    refine .inl ⟨idx, entry.program, ?_, ?_, outcome⟩
    · rw [runs]
    · rw [runs, Cache.program, there]
      rfl
  · next cause after runs =>
    refine .inr ⟨cause, ?_, ends.outcome⟩
    rw [runs]

/-- A circular import is reported for an unfinished file, or because there is one. -/
theorem circular_of_path (finite : srcs.Finite files) (cfg : BuildConfig)
    (orderly : Orderly srcs cache) (fails : ((Load.path srcs cfg path).run.run cache).1 =
      .error (.name loc (.circularImport other))) :
    other ∈ cache.unfinished ∨ ∃ file, srcs.canonical? path = some file ∧ srcs.Reaches file other ∧
      srcs.Reaches other loc.file ∧ srcs.Imports loc.file other := by
  cases leads : srcs.canonical? path with
  | none =>
    rw [path_unknown cfg _ leads] at fails
    cases fails
  | some file =>
    rcases path_outcome finite cfg orderly leads with ⟨idx, prog, loads, -⟩ | ⟨cause, stops, spec⟩
    · cases fails.symm.trans loads
    · cases fails.symm.trans stops
      exact (circular_of_assemble spec).2.imp_right fun cycle => ⟨file, rfl, cycle⟩

theorem Orderly.load (finite : srcs.Finite files) (cfg : BuildConfig) (orderly : Orderly srcs cache)
    (path : Path) :
    Orderly srcs ((Load.path srcs cfg path).run.run cache).2 := by
  cases leads : srcs.canonical? path with
  | none =>
    rw [path_unknown cfg cache leads]
    exact orderly
  | some file =>
    have ends := path_agrees finite cfg orderly leads
    unfold Ends at ends
    split at ends
    · next after runs =>
      rw [runs]
      exact ⟨ends.tidy, ends.unfinished ▸ orderly.broken⟩
    · next cause after runs =>
      rw [runs]
      exact ⟨ends.tidy, fun file mem => (ends.left file mem).elim (orderly.broken file) id⟩

/-- The cache after some paths were loaded one after the other, whether or not they could be. -/
def history (srcs : Sources) (cfg : BuildConfig) (paths : List Path) : Cache :=
  paths.foldl (fun cache path => ((Load.path srcs cfg path).run.run cache).2) {}

theorem history_concat (paths : List Path) (path : Path) :
    history srcs cfg (paths ++ [path]) =
      ((Load.path srcs cfg path).run.run (history srcs cfg paths)).2 :=
  foldl_concat ..

theorem orderly_empty (srcs : Sources) : Orderly srcs {} :=
  ⟨Cache.tidy_empty srcs, forall_mem_nil _⟩

theorem history_orderly (finite : srcs.Finite files) (cfg : BuildConfig) (paths : List Path) :
    Orderly srcs (history srcs cfg paths) := by
  induction paths using reverseRecOn with
  | nil => exact orderly_empty srcs
  | append_singleton paths path ih =>
    rw [history_concat]
    exact ih.load finite cfg path

end Load
end TernLang
