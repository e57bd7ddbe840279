import TernLang.Proofs.Program.Dependencies
import TernLang.Proofs.Program.Reading
import TernLang.Session.Load

/-! Loading files. Every file has one entry; the program of a finished entry links against
everything that what it links against does, and each function it has imported is a public function
of the file it comes from. Loading keeps this, also when it fails, as it keeps whatever merging
an import keeps. -/
namespace TernLang

open List

variable (srcs : Sources)

namespace Sources

def program (file : Path) : Except Error Program :=
  match srcs.read? file with
  | some src => Program.parse file src
  | none => throw (.cannotOpen file)

/-- An import in the text of a file leads to another one. -/
def Imports (file imported : Path) : Prop :=
  ∃ prog, srcs.program file = .ok prog ∧ ∃ req ∈ prog.importRequests,
    srcs.find? prog.directory req.name = some imported

end Sources

structure Cache.Holds (cache : Cache) (file : Path) (entry : Cache.Entry) : Prop where
  mem : entry ∈ cache.entries
  isReady : entry.isReady
  file : entry.file.same file

/-- What is true of the program of a file when all its imports are merged in. -/
structure Program.Loaded (cache : Cache) (prog : Program) : Prop where
  functions : ∀ fn ∈ prog.functions, fn.Written prog.file 0
  dependencies : ∀ dep ∈ prog.dependencies, ∃ entry, cache.Holds dep.file entry ∧
    ∀ inner ∈ entry.program.dependencies, prog.Covers inner.file
  imports : ∀ ext ∈ prog.externals, ext.isMangled → prog.Covers ext.origin ∧
    ∃ entry, cache.Holds ext.origin entry ∧
    ∃ fn ∈ entry.program.functions, fn.isPublic ∧ fn.name = ext.name ∧ fn.paramTypes = ext.params

/-- Every file has one entry, and the programs of finished ones are loaded. -/
structure Cache.Sound (cache : Cache) : Prop where
  distinct : (cache.entries.map (·.file)).Pairwise fun a b => a.same b = false
  ready : ∀ entry ∈ cache.entries, entry.isReady → entry.program.file = entry.file ∧
    entry.program.Loaded cache

/-- Every file has one entry with an admitted name, and the programs of finished ones are as stated.
-/
structure Cache.Keeps (name : Path → Prop) (part : Cache → Program → Prop)
    (cache : Cache) : Prop where
  distinct : (cache.entries.map (·.file)).Pairwise fun a b => a.same b = false
  named : ∀ entry ∈ cache.entries, name entry.file
  ready : ∀ entry ∈ cache.entries, entry.isReady → entry.program.file = entry.file ∧
    part cache entry.program

variable {cache after : Cache} {prog merged : Program} {file : Path} {idx : Nat}
  {name : Path → Prop} {part : Cache → Program → Prop} {entry : Cache.Entry}

theorem Cache.sound_iff_keeps :
    cache.Sound ↔ cache.Keeps (fun _ => True) fun cache prog => prog.Loaded cache := by
  constructor
  · rintro ⟨distinct, ready⟩
    exact ⟨distinct, fun _ _ => trivial, ready⟩
  · rintro ⟨distinct, -, ready⟩
    exact ⟨distinct, ready⟩

theorem Cache.Holds.mono (holds : cache.Holds file entry)
    (more : ∀ entry ∈ cache.entries, entry.isReady → entry ∈ after.entries) :
    after.Holds file entry :=
  ⟨more entry holds.mem holds.isReady, holds.isReady, holds.file⟩

theorem Program.Loaded.mono (loaded : prog.Loaded cache)
    (more : ∀ entry ∈ cache.entries, entry.isReady → entry ∈ after.entries) :
    prog.Loaded after where
  functions := loaded.functions
  dependencies dep mem := by
    obtain ⟨entry, holds, inner⟩ := loaded.dependencies dep mem
    exact ⟨entry, holds.mono more, inner⟩
  imports ext mem mangled := by
    obtain ⟨covers, entry, holds, origin⟩ := loaded.imports ext mem mangled
    exact ⟨covers, entry, holds.mono more, origin⟩

/-! Reading and merging. -/

structure Program.Fresh (file : Path) (prog : Program) : Prop where
  named : prog.file = file
  dependencies : prog.dependencies = []
  functions : ∀ fn ∈ prog.functions, fn.Written file 0
  externals : ∀ ext ∈ prog.externals, ext.isMangled = false

theorem Program.Fresh.declares (fresh : prog.Fresh file) (declares : prog.Declares merged) :
    merged.Fresh file where
  named := declares.file.trans fresh.named
  dependencies := declares.dependencies.trans fresh.dependencies
  functions fn mem := (declares.functions.cases mem).elim (fresh.functions fn) (fresh.named ▸ ·)
  externals ext mem := (declares.externals.cases mem).elim (fresh.externals ext) id

theorem Program.fresh_of_parse (parses : Program.parse file src = .ok prog) : prog.Fresh file := by
  simp only [Program.parse, Success.bind_ok] at parses
  obtain ⟨tokens, -, parses⟩ := parses
  have fresh : (Program.addTokens { file } tokens).1.Fresh file := by
    apply addTokens_keeps
    · intro before after fresh declares
      exact fresh.declares declares
    · exact ⟨rfl, rfl, forall_mem_nil _, forall_mem_nil _⟩
  split at parses
  · next added =>
    cases parses
    rwa [added] at fresh
  · cases parses

theorem Sources.fresh_of_program {srcs : Sources} (reads : srcs.program file = .ok prog) :
    prog.Fresh file := by
  unfold Sources.program at reads
  split at reads
  · exact Program.fresh_of_parse reads
  · contradiction

theorem Program.Fresh.loaded (fresh : prog.Fresh file) (cache : Cache) : prog.Loaded cache where
  functions := fresh.named.symm ▸ fresh.functions
  dependencies := by
    rw [fresh.dependencies]
    exact forall_mem_nil _
  imports := by
    intro ext mem mangled
    rw [fresh.externals ext mem] at mangled
    contradiction

theorem Program.Loaded.merge (loaded : prog.Loaded cache) (holds : cache.Holds file entry)
    (named : entry.program.file = entry.file) (others : entry.program.Loaded cache)
    (merges : prog.merge entry.program isPublic = (.ok (), merged)) (cfg : BuildConfig)
    (isPlaceholder : Bool) :
    (merged.addDependency { file, config := cfg, isPlaceholder }).Loaded cache := by
  have grows := merge_grows prog entry.program isPublic
  rw [merges] at grows
  obtain ⟨spreads, taken⟩ := merge_spreads merges
  obtain ⟨known, here, kept⟩ := merged.dependencies_addDependency { file, config := cfg, isPlaceholder }
  have old (path : Path) (covers : prog.Covers path) := kept path (spreads.kept path covers)
  have new (path : Path) (covers : entry.program.Covers path) :
      (merged.addDependency { file, config := cfg, isPlaceholder }).Covers path := by
    obtain ⟨dep, mem, same⟩ := covers
    exact (kept _ (taken dep mem)).of_same same
  refine ⟨fun fn mem => ?_, fun dep mem => ?_, fun ext mem mangled => ?_⟩
  · have unchanged : fn.Written merged.file 0 := by
      rw [grows.file]
      exact loaded.functions fn (grows.functions ▸ mem)
    exact unchanged
  · rcases known dep mem with mem | rfl
    · rcases spreads.known dep mem with mem | mem
      · obtain ⟨found, there, inner⟩ := loaded.dependencies dep mem
        exact ⟨found, there, fun path mem => old _ (inner path mem)⟩
      · obtain ⟨found, there, inner⟩ := others.dependencies dep mem
        exact ⟨found, there, fun path mem => new _ (inner path mem)⟩
    · exact ⟨entry, holds, fun inner mem => new _ ⟨inner, mem, Path.same_refl _⟩⟩
  · rcases grows.externals.cases mem with own | ⟨fn, there, exported, rfl⟩ | ⟨src, there, exported, rfl⟩
    · obtain ⟨covers, origin⟩ := loaded.imports ext own mangled
      exact ⟨old _ covers, origin⟩
    · -- a function of the merged file itself, which is the file that the entry is for
      have origin : fn.origin = entry.file := (others.functions fn there).origin.trans named
      refine ⟨?_, entry, ⟨holds.mem, holds.isReady, ?_⟩, fn, there, exported, rfl, rfl⟩
      · change Covers _ fn.origin
        rw [origin]
        exact here.of_same (Path.same_symm holds.file)
      · change entry.file.same fn.origin
        rw [origin]
        exact Path.same_refl _
    · obtain ⟨covers, origin⟩ := others.imports src there mangled
      exact ⟨new _ covers, origin⟩

/-! Entries. -/

namespace Cache

theorem mem_modify {α : Type} {items : List α} {change : α → α} {item : α}
    (mem : item ∈ items.modify idx change) :
    item ∈ items ∨ ∃ old, items[idx]? = some old ∧ item = change old := by
  obtain ⟨place, found⟩ := mem_iff_getElem?.mp mem
  rw [getElem?_modify] at found
  obtain ⟨old, there, rfl⟩ := Option.map_eq_some_iff.mp found
  by_cases here : idx = place
  · subst here
    exact .inr ⟨old, there, if_pos rfl⟩
  · rw [if_neg here]
    exact .inl (mem_of_getElem? there)

theorem exists_of_find? (found : cache.find? file = some idx) :
    ∃ entry, cache.get? idx = some entry ∧ entry.file.same file := by
  obtain ⟨inside, same, -⟩ := findIdx?_eq_some_iff_getElem.mp found
  exact ⟨cache.entries[idx], getElem?_eq_getElem inside, same⟩

theorem Sound.find?_eq (sound : cache.Sound) (there : cache.get? idx = some entry)
    (same : entry.file.same file) :
    cache.find? file = some idx := by
  obtain ⟨inside, rfl⟩ := List.getElem?_eq_some_iff.mp there
  refine List.findIdx?_eq_some_iff_getElem.mpr ⟨inside, same, fun earlier less other => ?_⟩
  have apart := List.pairwise_iff_getElem.mp (List.pairwise_map.mp sound.distinct) earlier idx (by omega) inside less
  rw [Path.same_trans other (Path.same_symm same)] at apart
  contradiction

/-- Programs stay as stated when more files are finished. -/
def Monotone (part : Cache → Program → Prop) : Prop :=
  ∀ (cache after : Cache) (prog : Program), part cache prog →
    (∀ entry ∈ cache.entries, entry.isReady → entry ∈ after.entries) → part after prog

theorem Keeps.append (keeps : cache.Keeps name part) (mono : Monotone part)
    (missing : cache.find? file = none) (admitted : name file) :
    Keeps name part ⟨cache.entries ++ [⟨file, { file }, false⟩]⟩ where
  distinct := by
    simp only [map_append, map_cons, map_nil, pairwise_append]
    refine ⟨keeps.distinct, pairwise_singleton .., ?_⟩
    intro name mem other last
    obtain ⟨entry, there, rfl⟩ := mem_map.mp mem
    rw [mem_singleton.mp last]
    exact findIdx?_eq_none_iff.mp missing entry there
  named := forall_mem_append.mpr ⟨keeps.named, forall_mem_singleton.mpr admitted⟩
  ready entry mem ready := by
    rcases mem_append.mp mem with mem | mem
    · obtain ⟨same, holds⟩ := keeps.ready entry mem ready
      exact ⟨same, mono _ _ _ holds fun _ mem _ => mem_append_left _ mem⟩
    · rw [mem_singleton.mp mem] at ready
      contradiction

theorem get?_finish (cache : Cache) (idx place : Nat) (prog : Program) :
    (cache.finish idx prog).get? place =
      (cache.get? place).map fun entry => if idx =
        place then { entry with program := prog, isReady := true } else entry :=
  getElem?_modify ..

theorem files_finish (cache : Cache) (idx : Nat) (prog : Program) :
    (cache.finish idx prog).entries.map (·.file) = cache.entries.map (·.file) := by
  apply ext_getElem?
  intro place
  have here := cache.get?_finish idx place prog
  simp only [get?] at here
  simp only [getElem?_map, here, Option.map_map]
  congr 1
  funext entry
  simp only [Function.comp_apply]
  split <;> rfl

theorem prefix_finish (more : cache.entries <+: after.entries) (prog : Program) :
    cache.entries <+: (after.finish cache.size prog).entries := by
  rw [prefix_iff_getElem?] at more ⊢
  intro place inside
  have here := after.get?_finish cache.size place prog
  rw [get?, get?, more place inside] at here
  rw [here, Option.map_some, if_neg]
  exact Nat.ne_of_gt inside

theorem Keeps.finish (keeps : cache.Keeps name part) (mono : Monotone part) {entry : Entry}
    (there : cache.get? idx = some entry) (open_ : entry.isReady = false)
    (same : prog.file = entry.file) (holds : part cache prog) :
    (cache.finish idx prog).Keeps name part := by
  have kept (found : Entry) (mem : found ∈ cache.entries) (ready : found.isReady) :
      found ∈ (cache.finish idx prog).entries := by
    obtain ⟨place, here⟩ := mem_iff_getElem?.mp mem
    have other : idx ≠ place := by
      rintro rfl
      rw [← Option.some.inj (there.symm.trans here), open_] at ready
      contradiction
    have stays : (cache.finish idx prog).get? place = some found := by
      rw [get?_finish, get?, here, Option.map_some, if_neg other]
    exact mem_of_getElem? stays
  refine ⟨files_finish cache idx prog ▸ keeps.distinct, fun found mem => ?_, fun found mem ready => ?_⟩
  · rcases mem_modify mem with mem | ⟨old, here, rfl⟩
    · exact keeps.named found mem
    · exact keeps.named old (mem_of_getElem? here)
  · rcases mem_modify mem with mem | ⟨old, here, rfl⟩
    · obtain ⟨same, holds⟩ := keeps.ready found mem ready
      exact ⟨same, mono _ _ _ holds kept⟩
    · cases there.symm.trans here
      exact ⟨same, mono _ _ _ holds kept⟩

end Cache

/-- A cache that has all entries of the other one and keeps what is stated. -/
structure Cache.Continues (name : Path → Prop) (part : Cache → Program → Prop)
    (cache after : Cache) : Prop where
  keeps : after.Keeps name part
  kept : cache.entries <+: after.entries

theorem Cache.Keeps.continues (keeps : cache.Keeps name part) : cache.Continues name part cache :=
  ⟨keeps, prefix_rfl⟩

theorem Cache.Continues.trans (first : cache.Continues name part after)
    (second : after.Continues name part later) :
    cache.Continues name part later :=
  ⟨second.keeps, first.kept.trans second.kept⟩

/-! The steps of loading. -/

namespace Load
variable {α β : Type} {always : Cache → Prop} {mid : α → Cache → Prop} {post : β → Cache → Prop}
  {next : PUnit → Load β}

/-- Success or failure, the cache is as stated afterwards, and so is any result. -/
def Leaves (always : Cache → Prop) (post : β → Cache → Prop) (cache : Cache) (work : Load β) :
    Prop :=
  always (work.run.run cache).2 ∧ ∀ res, (work.run.run cache).1 = .ok res → post res (work.run.run cache).2

namespace Leaves

theorem pure (here : always cache) (holds : post res cache) :
    Leaves always post cache (Pure.pure res) := by
  refine ⟨here, fun other same => ?_⟩
  cases same
  exact holds

theorem throw (here : always cache) : Leaves always post cache (MonadExcept.throw cause) :=
  ⟨here, fun _ same => nomatch same⟩

theorem lift_bind {outcome : Except Error α} {next : α → Load β} (here : always cache)
    (andThen : ∀ res, outcome = .ok res → Leaves always post cache (next res)) :
    Leaves always post cache (liftM outcome >>= next) := by
  cases outcome with
  | error cause => exact ⟨here, fun _ same => nomatch same⟩
  | ok res => exact andThen res rfl

theorem bind {next : α → Load β} (first : Leaves always mid cache work) (andThen : ∀ res between,
      always between → mid res between → Leaves always post between (next res)) :
    Leaves always post cache (work >>= next) := by
  rw [Leaves, ExceptT.run_bind, StateT.run_bind]
  obtain ⟨here, holds⟩ := first
  revert here holds
  rcases work.run.run cache with ⟨outcome, between⟩
  intro here holds
  cases outcome with
  | error cause => exact ⟨here, fun _ same => nomatch same⟩
  | ok res => exact andThen res between here (holds res rfl)

theorem change (change : Cache → Cache) (andThen : Leaves always post (change cache) (next ⟨⟩)) :
    Leaves always post cache (modify change >>= next) := andThen

theorem get {next : Cache → Load β} (andThen : Leaves always post cache (next cache)) :
    Leaves always post cache (MonadState.get >>= next) := andThen

theorem set (andThen : Leaves always post after (next ⟨⟩)) :
    Leaves always post cache (MonadStateOf.set after >>= next) := andThen

theorem mono {always' : Cache → Prop} {post' : β → Cache → Prop}
    (leaves : Leaves always post cache work) (weaker : ∀ cache, always cache → always' cache)
    (implies : ∀ res cache, always cache → post res cache → post' res cache) :
    Leaves always' post' cache work :=
  ⟨weaker _ leaves.1, fun res same => implies res _ leaves.1 (leaves.2 res same)⟩

theorem foldlM {post : List α → β → Cache → Prop} (each : ∀ item ∈ items, ∀ done state cache, always
      cache → post done state cache → Leaves always (post (done ++ [item])) cache (step state item))
    (done : List α) (here : always cache) (start : post done state cache) :
    Leaves always (post (done ++ items)) cache (items.foldlM step state) := by
  induction items generalizing done state cache with
  | nil =>
    rw [append_nil]
    exact pure here start
  | cons item rest ih =>
    obtain ⟨first, later⟩ := forall_mem_cons.mp each
    rw [foldlM_cons, append_cons]
    apply (first done state cache here start).bind
    intro res between here holds
    exact ih later (done ++ [item]) here holds

end Leaves

/-- The entry at an index is a finished one of the file. -/
def Finished (file : Path) (idx : Nat) (cache : Cache) : Prop :=
  ∃ entry, cache.get? idx = some entry ∧ cache.Holds file entry

theorem visited?_leaves (file : Path) (importedAt : Option Location) (cache : Cache) :
    Leaves (cache = ·) (fun found cache => ∀ idx, found = some idx → Finished file idx cache) cache
      (visited? file importedAt) := by
  apply Leaves.get
  split
  · exact .pure rfl fun _ same => nomatch same
  · next idx found =>
    obtain ⟨entry, there, same⟩ := Cache.exists_of_find? found
    rw [there]
    split
    · next ready =>
      refine .pure rfl fun _ same => ?_
      cases same
      exact ⟨entry, there, mem_of_getElem? there, ready, same⟩
    · cases importedAt with
      | none => exact .throw rfl
      | some loc => exact .throw rfl

theorem readProgram_eq (file : Path) :
    readProgram srcs file = (liftM (srcs.program file) : Load Program) := by
  unfold readProgram Sources.program
  cases srcs.read? file with
  | none => rfl
  | some src => rfl

/-- What has to be shown of names and programs for all loading to keep it. A program is open while
its imports are merged; what is true of it then may depend on the files merged so far. -/
structure Maintains (srcs : Sources) (name : Path → Prop)
    (open_ : Cache → List Path → Program → Prop)
    (part : Cache → Program → Prop) : Prop where
  entered : ∀ path file, srcs.canonical? path = some file → name file
  found : ∀ directory req file, srcs.find? directory req = some file → name file
  mono : ∀ cache after files prog, open_ cache files prog →
    (∀ entry ∈ cache.entries, entry.isReady → entry ∈ after.entries) → open_ after files prog
  stays : Cache.Monotone part
  fresh : ∀ cache file prog, srcs.program file = .ok prog → open_ cache [] prog
  merge : ∀ cache files prog file entry isPublic merged cfg isPlaceholder, open_ cache files prog →
    srcs.Imports prog.file file → name file → cache.Holds file entry → name entry.file →
    entry.program.file = entry.file → part cache entry.program →
      prog.merge entry.program isPublic = (.ok (), merged) →
    open_ cache (files ++ [file]) (merged.addDependency { file, config := cfg, isPlaceholder })
  finish : ∀ cache files prog, open_ cache files prog →
    (∀ imported, srcs.Imports prog.file imported → imported ∈ files) → part cache prog

def Loads (name : Path → Prop) (part : Cache → Program → Prop) (load : Path → Load (Nat × Bool)) :
    Prop :=
  ∀ file cache, cache.Keeps name part → name file →
    Leaves (cache.Continues name part) (fun res after => Finished file res.1 after) cache (load file)

/-- The program of a file while its imports are merged: those of some requests are done. -/
def Merging (open_ : Cache → List Path → Program → Prop) (prog : Program)
    (done : List ImportRequest) (merged : Program) (cache : Cache) : Prop :=
  merged.file = prog.file ∧ ∃ files, open_ cache files merged ∧
    ∀ req ∈ done, ∀ imported, srcs.find? prog.directory req.name = some imported → imported ∈ files

section
variable {srcs : Sources} {load : Path → Location → Load (Nat × Bool)}
  {open_ : Cache → List Path → Program → Prop} (maintains : Maintains srcs name open_ part)
  {req : ImportRequest}
include maintains

theorem enter_leaves (keeps : cache.Keeps name part) (admitted : name file) :
    Leaves (cache.Continues name part)
      (fun idx after => idx = cache.size ∧
        after.entries = cache.entries ++ [⟨file, { file }, false⟩]) cache (enter file) := by
  apply Leaves.get
  cases missing : cache.find? file with
  | some idx =>
    rw [Cache.create?, missing]
    exact .throw keeps.continues
  | none =>
    rw [Cache.create?, missing]
    apply Leaves.set
    exact .pure ⟨keeps.append maintains.stays missing admitted, prefix_append ..⟩ ⟨rfl, rfl⟩

section
variable (cfg : BuildConfig)
include cfg

section
variable (loads : ∀ loc, Loads name part (load · loc))
include loads

theorem importOne_leaves
    (imports : ∀ file, srcs.find? prog.directory req.name = some file → srcs.Imports prog.file file)
    {files : List Path} (keeps : cache.Keeps name part) (holds : open_ cache files prog) :
    Leaves (cache.Continues name part) (fun merged after => merged.file = prog.file ∧
      ∃ file, srcs.find? prog.directory req.name = some file ∧
        open_ after (files ++ [file]) merged) cache
      (importOne srcs cfg load prog req) := by
  unfold importOne
  dsimp only
  split
  · exact .throw keeps.continues
  · next file found =>
    have admitted := maintains.found _ _ file found
    apply (loads _ file cache keeps admitted).bind
    rintro ⟨idx, isFresh⟩ after later ⟨entry, there, finished⟩
    apply Leaves.get
    apply Leaves.lift_bind later
    intro other given
    rw [Cache.program, there] at given
    cases given
    cases merges : prog.merge entry.program req.isPublic with
    | mk outcome merged =>
      apply Leaves.lift_bind later
      rintro _ rfl
      have still : open_ after files prog := maintains.mono _ _ _ _ holds fun _ mem _ => later.kept.subset mem
      obtain ⟨same, whole⟩ := later.keeps.ready entry finished.mem finished.isReady
      have grows := Program.merge_grows prog entry.program req.isPublic
      rw [merges] at grows
      refine .pure later ⟨grows.file, file, found, ?_⟩
      exact maintains.merge _ _ _ _ _ _ _ _ _ still (imports file found) admitted finished
        (later.keeps.named entry finished.mem) same whole merges

theorem nextImport_leaves (reads : srcs.program prog.file = .ok prog)
    (mem : req ∈ prog.importRequests) (keeps : cache.Keeps name part)
    (merging : Merging srcs open_ prog done merged cache) :
    Leaves (cache.Continues name part) (Merging srcs open_ prog (done ++ [req])) cache
      (importOne srcs cfg load merged req) := by
  obtain ⟨same, files, holds, known⟩ := merging
  have alike : merged.directory = prog.directory := congrArg (fun file : Path => file.parent?.getD ⟨"."⟩) same
  have imports (imported : Path) (found : srcs.find? merged.directory req.name = some imported) :
      srcs.Imports merged.file imported := by
    rw [same]
    exact ⟨prog, reads, req, mem, alike ▸ found⟩
  apply (importOne_leaves maintains cfg loads imports keeps holds).mono fun _ => id
  rintro next after - ⟨named, imported, found, holds⟩
  refine ⟨named.trans same, files ++ [imported], holds, ?_⟩
  rw [alike] at found
  intro asked mem other leads
  rcases mem_append.mp mem with mem | mem
  · exact mem_append_left _ (known asked mem other leads)
  · rw [mem_singleton.mp mem] at leads
    cases found.symm.trans leads
    exact mem_concat_self

theorem imports_leaves (reads : srcs.program file = .ok prog) (keeps : cache.Keeps name part) :
    Leaves (cache.Continues name part) (fun merged after => merged.file = file ∧
      part after merged) cache
      (prog.importRequests.foldlM (importOne srcs cfg load) prog) := by
  obtain rfl := (Sources.fresh_of_program reads).named
  have all : Leaves (cache.Continues name part) (Merging srcs open_ prog ([] ++ prog.importRequests)) cache
      (prog.importRequests.foldlM (importOne srcs cfg load) prog) := by
    refine Leaves.foldlM ?_ [] keeps.continues ⟨rfl, [], maintains.fresh _ _ _ reads, forall_mem_nil _⟩
    intro req mem done merged after later merging
    exact (nextImport_leaves maintains cfg loads reads mem later.keeps merging).mono
      (fun _ => later.trans) fun _ _ _ => id
  apply all.mono fun _ => id
  rintro merged after - ⟨same, files, holds, known⟩
  refine ⟨same, maintains.finish _ files _ holds ?_⟩
  rintro imported ⟨origin, again, req, mem, found⟩
  rw [same] at again
  cases again.symm.trans reads
  exact known req mem imported found

end

/-- The entry of a file stays open while its imports are loaded. -/
theorem file_loads (depth : Nat) (importedAt : Option Location) :
    Loads name part (Load.file srcs cfg depth · importedAt) := by
  induction depth generalizing importedAt with
  | zero => exact fun _ _ keeps _ => .throw keeps.continues
  | succ depth ih =>
    intro file cache keeps admitted
    apply ((visited?_leaves file importedAt cache).mono (fun _ same => same ▸ keeps.continues)
      fun found _ => And.intro).bind
    rintro found _ - ⟨rfl, holds⟩
    cases found with
    | some idx => exact .pure keeps.continues (holds idx rfl)
    | none =>
      apply (enter_leaves maintains keeps admitted).bind
      rintro _ entered later ⟨rfl, appended⟩
      rw [readProgram_eq]
      apply Leaves.lift_bind later
      intro prog reads
      have imported := imports_leaves maintains cfg (fun loc => ih (some loc)) reads later.keeps
      apply (imported.mono (fun _ => later.trans) fun _ _ => And.intro).bind
      rintro merged after - ⟨last, same, holds⟩
      have there : after.get? cache.size = some ⟨file, { file }, false⟩ := by
        obtain ⟨rest, kept⟩ := last.kept
        rw [Cache.get?, ← kept, appended, append_assoc, Cache.size, getElem?_append_right (Nat.le_refl _)]
        simp
      have done : (after.finish cache.size merged).get? cache.size = some ⟨file, merged, true⟩ := by
        rw [Cache.get?_finish, there, Option.map_some, if_pos rfl]
      apply Leaves.change
      refine .pure ⟨?_, ?_⟩ ⟨_, done, mem_of_getElem? done, rfl, Path.same_refl file⟩
      · exact last.keeps.finish maintains.stays there rfl same holds
      · exact Cache.prefix_finish (later.trans last).kept merged

theorem path_keeps (path : Path) (keeps : cache.Keeps name part) :
    Leaves (cache.Continues name part)
      (fun idx after => ∃ file, srcs.canonical? path = some file ∧ Finished file idx after) cache
      (Load.path srcs cfg path) := by
  unfold Load.path
  split
  · exact .throw keeps.continues
  · next file found =>
    apply (file_loads maintains cfg (srcs.depth + 1) none file cache keeps (maintains.entered path file found)).bind
    rintro ⟨idx, isFresh⟩ after always finished
    exact .pure always ⟨file, found, finished⟩

end

end

theorem maintains_loaded :
    Maintains srcs (fun _ => True) (fun cache _ prog => prog.Loaded cache) fun cache prog =>
      prog.Loaded cache where
  entered _ _ _ := trivial
  found _ _ _ _ := trivial
  mono _ _ _ _ loaded := loaded.mono
  stays _ _ _ loaded := loaded.mono
  fresh cache _ _ reads := (Sources.fresh_of_program reads).loaded cache
  merge _ _ _ _ _ _ _ cfg isPlaceholder loaded _ _ holds _ named others merges :=
    loaded.merge holds named others merges cfg isPlaceholder
  finish _ _ _ loaded _ := loaded

end Load

/-- Caches that loading leads to, failures included, from whatever files. -/
inductive Cache.Reached : Cache → Prop where
  | empty : Reached {}
  | load {cache : Cache} (srcs : Sources) (cfg : BuildConfig) (path : Path) :
    Reached cache → Reached ((Load.path srcs cfg path).run.run cache).2

theorem Cache.Reached.keeps {open_ : Cache → List Path → Program → Prop}
    (maintains : ∀ srcs, Load.Maintains srcs (fun _ => True) open_ part) (reached : cache.Reached) :
    cache.Keeps (fun _ => True) part := by
  induction reached with
  | empty => exact ⟨.nil, forall_mem_nil _, forall_mem_nil _⟩
  | load srcs cfg path _ keeps => exact (Load.path_keeps (maintains srcs) cfg path keeps).1.keeps

theorem Cache.Reached.sound (reached : cache.Reached) : cache.Sound :=
  sound_iff_keeps.mpr (reached.keeps Load.maintains_loaded)

end TernLang
