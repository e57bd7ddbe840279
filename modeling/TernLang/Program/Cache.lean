import TernLang.Program

/-! Programs of one session, at most one a file. An entry keeps its index; while its program
is being read it holds an empty one. -/
namespace TernLang

structure Cache.Entry where
  file : Path
  program : Program
  isReady : Bool

structure Cache where
  entries : List Cache.Entry := []

namespace Cache

def size (cache : Cache) : Nat := cache.entries.length

/-- Index of the entry of a file. -/
def find? (cache : Cache) (file : Path) : Option Nat := cache.entries.findIdx? (·.file.same file)

/-- A new entry with its index, unless the file has one. -/
def create? (cache : Cache) (file : Path) : Option (Nat × Cache) :=
  if (cache.find? file).isSome then none
  else some (cache.size, ⟨cache.entries ++ [⟨file, { file }, false⟩]⟩)

def get? (cache : Cache) (idx : Nat) : Option Entry := cache.entries[idx]?

def program (cache : Cache) (idx : Nat) : Except Error Program :=
  match cache.get? idx with
  | some entry => return entry.program
  | none => throw (.session (.noProgram idx))

/-- Put the finished program in. -/
def finish (cache : Cache) (idx : Nat) (program : Program) : Cache :=
  ⟨cache.entries.modify idx fun entry => { entry with program, isReady := true }⟩

/-- Indices and programs of the finished entries. -/
def ready (cache : Cache) : List (Nat × Program) :=
  cache.entries.zipIdx.filterMap fun (entry, idx) =>
    if entry.isReady then some (idx, entry.program) else none

end Cache
end TernLang
