import TernLang.Lowering
import TernLang.Machine.Run
import TernLang.Session.Load
import TernLang.Toolchain

/-! A session: files loaded once each, then checked, lowered, run or built. -/
namespace TernLang

structure SessionConfig where
  /-- Searched for imports after the directory of the importing file. -/
  libraryDir : Option Path := none
  build : BuildConfig := {}
  workers : Nat := 4

structure Session where
  config : SessionConfig := {}
  tools : Toolchain := {}
  limits : Machine.Limits := {}
  disk : Disk := {}
  cache : Cache := {}
  /-- What recording tools did in the latest build. -/
  log : List Toolchain.Event := []

/-- What a build did. -/
structure BuildReport where
  /-- Artifacts made, that of the entry last. -/
  emitted : List Path
  /-- Artifacts of dependencies that were as new as their sources. -/
  reused : List Path
  executable : Path

/-- The function that a run begins with. -/
def entrySymbol : String := "main"

namespace Session

/-- A step of a session; what it changed before a failure stays. -/
abbrev Act := ExceptT Error (StateM Session)

def onCache {α : Type} (work : Load α) : Act α := do
  let session ← get
  let (res, cache) := work.run session.cache
  set { session with cache }
  res

def onDisk {α : Type} (work : Work α) : Act α := do
  let session ← get
  let (res, disk) := work.run session.disk
  set { session with disk }
  res

/-- Do something with a tool, and log what it says it did. -/
def withTool (work : Toolchain → Work (List Toolchain.Event)) : Act Unit := do
  let events ← onDisk (work (← get).tools)
  modify fun session => { session with log := session.log ++ events }

/-- Load a file and everything it imports; the answer is its index in the cache. -/
def load (path : Path) : Act Nat := do
  let session ← get
  onCache (Load.path (session.disk.sources session.config.libraryDir) session.config.build path)

def program (idx : Nat) : Act Program := do
  (← get).cache.program idx

def lower (idx : Nat) : Act Ir.Module := do
  (← program idx).lower (← get).config.workers

def closure (idx : Nat) : Act (List Cache.Linked) := do
  (← get).cache.closure idx

/-- The module of a file. -/
def emitIr (path : Path) : Act Ir.Module := do lower (← load path)

/-- Find out whether a file can be lowered. -/
def check (path : Path) : Act Unit := do
  let _ ← emitIr path

/-- An artifact that is not older than its source need not be made. -/
def isUpToDate (disk : Disk) (src artifact : Path) : Bool :=
  match disk.modified? src, disk.modified? artifact with
  | some written, some made => written ≤ made
  | _, _ => false

/-- Linkers take objects, whatever artifact is asked for. -/
def objectConfig (cfg : BuildConfig) : BuildConfig := { cfg with artifact := .object }

/-- Make the object of a dependency unless it is up to date; the answer is whether it was made. -/
def buildDependency (linked : Cache.Linked) : Act Bool := do
  let dep := linked.dependency
  if isUpToDate (← get).disk dep.file dep.object then return false
  let mod ← lower linked.index
  withTool (·.emit mod (objectConfig dep.config) dep.object)
  return true

/-- Objects of dependencies in order, each with whether it was made. -/
def buildDependencies : List Cache.Linked → Act (List (Path × Bool))
  | [] => return []
  | linked :: rest => do
    let made ← buildDependency linked
    return (linked.dependency.object, made) :: (← buildDependencies rest)

/-- Build a file and what it imports into an executable. -/
def build (path output : Path) : Act BuildReport := do
  modify fun session => { session with log := [] }
  let idx ← load path
  let objects ← buildDependencies (← closure idx)
  let program ← program idx
  let cfg := (← get).config.build
  let primary := ({ file := program.file, config := cfg } : Dependency).object
  let mod ← lower idx
  withTool (·.emit mod (objectConfig cfg) primary)
  let flags := Toolchain.libraryFlags program.linkLibraries
  withTool (·.link primary (objects.map (·.1)) flags output)
  let made := objects.filter (·.2)
  let kept := objects.filter (! ·.2)
  return ⟨made.map (·.1) ++ [primary], kept.map (·.1), output⟩

/-- Run the entry function of a file. -/
def run (path : Path) : Act Machine.Outcome := do
  let idx ← load path
  let mod ← lower idx
  let others ← (← closure idx).mapM (lower ·.index)
  match Machine.execute mod others entrySymbol (← get).limits with
  | .ok outcome => return outcome
  | .error fault => throw (.execution fault)

end Session
end TernLang
