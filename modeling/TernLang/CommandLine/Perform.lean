import TernLang.CommandLine
import TernLang.Text.Utf8

/-! Carrying out a request over a disk: an exit code, two texts, and the disk afterwards. -/
namespace TernLang.CommandLine

structure Exit where
  code : Nat := 0
  output : String := ""
  diagnostics : String := ""

/-- A message and the causes behind it, outermost first. -/
structure Failure where
  message : String
  causes : List String := []

namespace Failure

/-- Further lines of a cause are indented like its first. -/
def indent (first next : String) (text : String) : String :=
  first ++ ("\n" ++ next).intercalate (text.splitOn "\n")

/-- A single cause stands alone; several are numbered. -/
def causeLines : List String → List String
  | [cause] => [indent "    " "    " cause]
  | causes => causes.zipIdx.map fun (cause, idx) =>
    indent ("    " ++ toString idx ++ ": ") "       " cause

def text (failure : Failure) : String :=
  let tail := if failure.causes.isEmpty then ""
    else "\n\nCaused by:\n" ++ "\n".intercalate (causeLines failure.causes)
  "Error: " ++ failure.message ++ tail ++ "\n"

end Failure

/-- Work on a disk that may fail with a message. -/
abbrev Run := ExceptT Failure (StateM Disk)

/-- Run a step in a new session on the disk; what it changed there stays. -/
def inSession {α : Type} (cfg : SessionConfig) (failed : String) (act : Session.Act α) : Run α := do
  let (res, session) := act.run { config := cfg, disk := ← get }
  set session.disk
  match res with
  | .ok a => return a
  | .error e => throw ⟨failed, e.chain⟩

/-- Only source files that are there are worth a session. -/
def checkSource (file : Path) : Run Unit := do
  if ! isSourceFile file then
    throw ⟨"File must have the ." ++ sourceExtension ++ " extension: " ++ file.text, []⟩
  match (← get).locate file with
  | .ok _ => pure ()
  | .error cause => throw ⟨"Failed to read " ++ file.text, [cause.message]⟩

def saveText (path : Path) (text : String) : Run Unit := do
  match (← get).write path text.toUTF8 with
  | .ok disk => set disk
  | .error cause => throw ⟨"Failed to write " ++ path.text, [cause.message]⟩

/-- Exit codes are bytes; what does not fit 32 bits is a plain failure. -/
def exitByte (code : Int) : Nat :=
  if IntKind.int.least ≤ code ∧ code ≤ IntKind.int.greatest then (code % 256).toNat else 1

def perform (task : Task) (file : Path) (output : Option Path) (cfg : SessionConfig) : Run Exit := do
  checkSource file
  match task with
  | .check => do
    inSession cfg "Check failed" (Session.check file)
    return { output := "All checks passed!\n" }
  | .emitIr => do
    let mod ← inSession cfg "Lowering failed" (Session.emitIr file)
    match output with
    | some path => do
      saveText path mod.text
      return {}
    | none => return { output := mod.text }
  | .build => do
    let tgt := output.getD (file.withExtension "")
    let report ← inSession cfg "Build failed" (Session.build file tgt)
    return { output := "Build complete: " ++ report.executable.text ++ "\n" }
  | .run => do
    let outcome ← inSession cfg "Execution failed" (Session.run file)
    return { code := exitByte outcome.exitCode, output := Text.decode outcome.output }

def versionText : String := "ternc 0.1.0\n"

def usageText : String :=
  "Usage: ternc [--lib-dir DIR] [-O N] [--workers N] COMMAND FILE\n\n" ++
  "Commands:\n" ++
  "  check    Check a program for errors\n" ++
  "  emit-ir  Print the intermediate form of a program, or write it with -o FILE\n" ++
  "  build    Build a program and its imports into an executable, -o FILE\n" ++
  "  run      Run a program\n"

/-- Understand and carry out a command line. -/
def execute (library : Option String) (args : List String) (disk : Disk) : Exit × Disk :=
  match read library args with
  | .error e => ({ code := 2, diagnostics := "error: " ++ e.message ++ "\n\n" ++ usageText }, disk)
  | .ok .version => ({ output := versionText }, disk)
  | .ok .help => ({ output := usageText }, disk)
  | .ok (.perform task file output cfg) =>
    match (perform task file output cfg).run disk with
    | (.ok exit, disk) => (exit, disk)
    | (.error failure, disk) => ({ code := 1, diagnostics := failure.text }, disk)

end TernLang.CommandLine
