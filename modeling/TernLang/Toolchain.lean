import TernLang.Build
import TernLang.Disk

/-! The tools behind a build. A stage either hands its work to a driver program or only leaves
the text of a module where the artifact would be, which is enough to follow a build. -/
namespace TernLang

/-- Program used for compiling and linking. -/
def defaultDriver : Path := ⟨"clang"⟩

inductive Tool where
  /-- Writes module texts and empty executables. -/
  | recorder
  | driver (prog : Path)
deriving DecidableEq

structure Toolchain where
  compiler : Tool := .driver defaultDriver
  linker : Tool := .driver defaultDriver
  /-- Programs that can be started, and whether they succeed. -/
  installed : List (Path × Bool) := []

/-- Work that changes the disk, also when it fails. -/
abbrev Work := ExceptT Error (StateM Disk)

def writeText (path : Path) (text : String) : Work Unit := do
  match (← get).write path text.toUTF8 with
  | .ok disk => set disk
  | .error cause => throw (.system cause)

namespace Toolchain

/-- A program and its arguments. -/
structure Command where
  program : Path
  args : List String

/-- What a recording stage did. -/
inductive Event where
  | emit (mod : String) (cfg : BuildConfig) (output : Path)
  | link (primary : Path) (objects : List Path) (flags : List String) (output : Path)

/-- Link flags for libraries. -/
def libraryFlags (libraries : List String) : List String := libraries.map ("-l" ++ ·)

/-- Compile a listing into an artifact. -/
def compileCommand (driver : Path) (cfg : BuildConfig) (listing output : Path) : Command where
  program := driver
  args := ["-c", cfg.optimization.flag] ++
    (if cfg.artifact = .bitcode then ["-emit-llvm"] else []) ++ [listing.text, "-o", output.text]

/-- Link a module and the modules it depends on. -/
def linkCommand (driver primary : Path) (objects : List Path) (flags : List String)
    (output : Path) :
    Command where
  program := driver
  args := primary.text :: objects.map (·.text) ++ flags ++ ["-o", output.text]

/-- Start a program and wait for it; the answer is whether it succeeded. -/
def start (tools : Toolchain) (command : Command) : Except SystemError Bool :=
  match tools.installed.find? (·.1 = command.program) with
  | some (_, succeeds) => return succeeds
  | none => throw .notFound

/-- Where the text of a module goes before a driver compiles it. -/
def listingOf (output : Path) : Path := output.withExtension "ll"

/-- Have a driver make the artifact of a module. The text itself is the assembly artifact. -/
def compile (tools : Toolchain) (driver : Path) (mod : Ir.Module) (cfg : BuildConfig)
    (output : Path) : Work Unit := do
  if cfg.artifact = .assembly then writeText output mod.text
  else do
    let listing := listingOf output
    writeText listing mod.text
    match tools.start (compileCommand driver cfg listing output) with
    | .error cause => throw (.backend (.cannotRun driver cause))
    | .ok false => throw (.backend (.failedOn driver listing))
    | .ok true => pure ()

/-- Make the artifact of a module. -/
def emit (tools : Toolchain) (mod : Ir.Module) (cfg : BuildConfig) (output : Path) :
    Work (List Event) :=
  match tools.compiler with
  | .recorder => do
    writeText output mod.text
    return [.emit mod.name cfg output]
  | .driver prog => do
    tools.compile prog mod cfg output
    return []

/-- Make an executable. A driver that succeeds must also have left it behind. -/
def link (tools : Toolchain) (primary : Path) (objects : List Path) (flags : List String)
    (output : Path) : Work (List Event) :=
  match tools.linker with
  | .recorder => do
    writeText output ""
    return [.link primary objects flags output]
  | .driver prog => do
    match tools.start (linkCommand prog primary objects flags output) with
    | .error cause => throw (.link (.cannotRun prog cause))
    | .ok succeeded =>
      if succeeded && (← get).exists? output then return []
      else throw (.link (.notProduced output))

end Toolchain
end TernLang
