import TernLang.Disk
import TernLang.Program.Cache
import TernLang.Program.Merge
import TernLang.Program.Parser

/-! Loading a file with everything it imports. A file is entered in the cache before it is read,
so an import that leads back to a file on its own import path finds an entry that is not
finished; a file whose loading failed keeps such an entry. -/
namespace TernLang

/-- Where files come from. Reading a file is an effect of `m`. -/
structure Sources (m : Type → Type := Id) where
  /-- The one name of the file that a path leads to. -/
  canonical? : Path → Option Path
  read? : Path → m (Option String)
  /-- The file that an import names, seen from a directory. -/
  find? : (directory : Path) → (name : String) → Option Path
  /-- Imports are followed through at most this many files. -/
  depth : Nat

/-- Where an import is looked for: beside the importing file, then in the library. -/
def importCandidates (library : Option Path) (directory : Path) (name : String) : List Path :=
  directory.join (importFileName name) :: library.toList.map (·.join (importFileName name))

/-- The files of a disk; no chain of imports is longer than their number. -/
def Disk.sources (disk : Disk) (library : Option Path) : Sources where
  canonical? := disk.canonical?
  read? := disk.text?
  find? := fun directory name =>
    ((importCandidates library directory name).find? disk.isFile).bind disk.canonical?
  depth := disk.nodes.size

/-- Work on the cache, which stays changed when it fails. -/
abbrev LoadT (m : Type → Type) := ExceptT Error (StateT Cache m)

abbrev Load := LoadT Id

namespace Load
variable {m : Type → Type} [Monad m]

/-- The index of a file that is in the cache. One that is not finished is being loaded further up,
or its loading failed. -/
def visited? (file : Path) (importedAt : Option Location) : LoadT m (Option Nat) := do
  let cache ← get
  match cache.find? file with
  | none => return none
  | some idx =>
    if (cache.get? idx).any (·.isReady) then return some idx
    match importedAt with
    | some loc => throw (.name loc (.circularImport file))
    | none => throw (.session (.stillParsing file))

/-- A new entry for a file. -/
def enter (file : Path) : LoadT m Nat := do
  match (← get).create? file with
  | some (idx, cache) => do
    set cache
    return idx
  | none => throw (.session (.alreadyCached file))

def readProgram (sources : Sources m) (file : Path) : LoadT m Program := do
  match ← sources.read? file with
  | some src => (Program.parse file src : Except Error Program)
  | none => throw (.cannotOpen file)

/-- Merge what a request imports, once `load` has loaded it. -/
def importOne (sources : Sources m) (cfg : BuildConfig)
    (load : Path → Location → LoadT m (Nat × Bool)) (prog : Program) (req : ImportRequest) :
    LoadT m Program := do
  let loc := prog.location req.line
  match sources.find? prog.directory req.name with
  | none => throw (.name loc (.unknownModule req.name))
  | some file => do
    let (idx, isFresh) ← load file loc
    let (res, merged) := prog.merge (← (← get).program idx) req.isPublic
    res
    return merged.addDependency { file, config := cfg, isPlaceholder := ! isFresh }

/-- The index of a file, and whether it was loaded just now. -/
def file (sources : Sources m) (cfg : BuildConfig) :
    (depth : Nat) → (file : Path) → (importedAt : Option Location) → LoadT m (Nat × Bool)
  | 0, file, _ => throw (.session (.tooDeep file))
  | depth + 1, file, importedAt => do
    match ← visited? file importedAt with
    | some idx => return (idx, false)
    | none => do
      let idx ← enter file
      let prog ← readProgram sources file
      let load := fun imported loc => Load.file sources cfg depth imported (some loc)
      let prog ← prog.importRequests.foldlM (importOne sources cfg load) prog
      modify (·.finish idx prog)
      return (idx, true)

/-- Load the file that a path leads to. -/
def path (sources : Sources m) (cfg : BuildConfig) (path : Path) : LoadT m Nat := do
  match sources.canonical? path with
  | none => throw (.cannotOpen path)
  | some name => return (← file sources cfg (sources.depth + 1) name none).1

end Load

namespace Cache

/-- A module to link, with the index of its program. -/
structure Linked where
  index : Nat
  dependency : Dependency

/-- Take a dependency into the closure unless its file is there; what is new has to be visited. -/
def linkOne (cache : Cache) (state : List Linked × List Nat) (dep : Dependency) :
    Except Error (List Linked × List Nat) := do
  let (found, pending) := state
  if found.any (·.dependency.file.same dep.file) then return state
  match cache.find? dep.file with
  | none => throw (.session (.notLoaded dep.file))
  | some idx => return (found ++ [⟨idx, dep⟩], idx :: pending)

/-- Visit pending programs, the latest first. -/
def linkFrom (cache : Cache) : (visits : Nat) → (found : List Linked) → (pending : List Nat) →
    Except Error (List Linked)
  | 0, found, _ | _, found, [] => return found
  | visits + 1, found, idx :: pending => do
    let prog ← cache.program idx
    let (found, pending) ← prog.dependencies.foldlM cache.linkOne (found, pending)
    linkFrom cache visits found pending

/-- Everything that a program links against, through any number of imports, each file once. A
program is visited once at most, so there are no more visits than entries. -/
def closure (cache : Cache) (idx : Nat) : Except Error (List Linked) :=
  cache.linkFrom (cache.size + 1) [] [idx]

end Cache
end TernLang
