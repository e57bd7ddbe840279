import TernLang.Path

/-! How a module is built: optimization level, kind of artifact, and where it goes. -/
namespace TernLang

/-- Levels zero to three. -/
abbrev Optimization := Fin 4

namespace Optimization

def ofNat? (level : Nat) : Option Optimization :=
  if h : level < 4 then some ⟨level, h⟩ else none

def flag (level : Optimization) : String := "-O" ++ toString level.val

end Optimization

inductive Artifact where
  | object
  | bitcode
  | assembly
deriving DecidableEq

def Artifact.extension : Artifact → String
  | object => "o"
  | bitcode => "bc"
  | assembly => "ll"

structure BuildConfig where
  optimization : Optimization := 0
  artifact : Artifact := .object
deriving DecidableEq

namespace BuildConfig

def artifactPath (cfg : BuildConfig) (src : Path) : Path :=
  src.withExtension cfg.artifact.extension

/-- Level and extension, as build logs show them. -/
def text (cfg : BuildConfig) : String :=
  cfg.optimization.flag ++ " " ++ cfg.artifact.extension

end BuildConfig

def sourceExtension : String := "tern"

def isSourceFile (path : Path) : Bool := path.extension? == some sourceExtension

/-- The file an import names, with the extension of sources unless it has it. -/
def importFileName (name : String) : String :=
  if (Path.mk name).extension? == some sourceExtension then name else name ++ "." ++ sourceExtension

/-- A separately compiled module that a program links against. -/
structure Dependency where
  file : Path
  config : BuildConfig := {}
  /-- The module was compiled earlier in the same session. -/
  isPlaceholder : Bool := false
deriving DecidableEq

def Dependency.listing (dep : Dependency) : Path := dep.file.withExtension "ll"
def Dependency.object (dep : Dependency) : Path := dep.file.withExtension "o"

end TernLang
