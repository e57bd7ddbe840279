import TernLang.Session

/-! The command line: options that hold for every command, then a command with its file. Options
may stand before or after the command; a value after it wins. -/
namespace TernLang.CommandLine

inductive Task where
  | check
  | emitIr
  | build
  | run
deriving DecidableEq

namespace Task

def all : List Task := [check, emitIr, build, run]

def name : Task → String
  | check => "check"
  | emitIr => "emit-ir"
  | build => "build"
  | run => "run"

def ofName? (name : String) : Option Task := all.find? (·.name == name)

/-- Whether the task writes a file that can be chosen. -/
def hasOutput : Task → Bool
  | emitIr | build => true
  | check | run => false

end Task

inductive Request where
  | version
  | help
  | perform (task : Task) (file : Path) (output : Option Path) (cfg : SessionConfig)

inductive UsageError where
  | unexpected (argument : String)
  | missingValue (option : String)
  | badValue (option val : String)
  | repeated (option : String)
  | noCommand
  | noFile

def UsageError.message : UsageError → String
  | unexpected argument => "unexpected argument '" ++ argument ++ "'"
  | missingValue option => "a value is required for '" ++ option ++ "'"
  | badValue option val => "invalid value '" ++ val ++ "' for '" ++ option ++ "'"
  | repeated option => "'" ++ option ++ "' cannot be used multiple times"
  | noCommand => "a command is required"
  | noFile => "a source file is required"

inductive Setting where
  | libraryDir
  | optimization
  | workers
  | output
deriving DecidableEq

def Setting.text : Setting → String
  | libraryDir => "--lib-dir"
  | optimization => "-O"
  | workers => "--workers"
  | output => "--output"

/-- Values given before or after the command. -/
structure Given where
  libraryDir : Option Path := none
  optimization : Option Optimization := none
  workers : Option Nat := none
  output : Option Path := none
  file : Option Path := none

/-- Decimal digits, perhaps after a plus sign. -/
def number? (text : String) : Option Nat :=
  let digits := match text.toList with
    | '+' :: rest => rest
    | all => all
  if digits.isEmpty || ! digits.all Char.isDigit then none
  else some (digits.foldl (fun n c => 10 * n + (c.toNat - '0'.toNat)) 0)

/-- Workers are counted in machine words. -/
def workers? (text : String) : Option Nat := (number? text).filter (· < twoPow 64)

def path? (text : String) : Option Path := if text.isEmpty then none else some ⟨text⟩

namespace Given

/-- Fill a place that is still empty. -/
def place {α : Type} (setting : Setting) (val : String) (before read : Option α) :
    Except UsageError (Option α) :=
  match before, read with
  | some _, _ => throw (.repeated setting.text)
  | none, some a => return some a
  | none, none => throw (.badValue setting.text val)

def assign (given : Given) (setting : Setting) (val : String) : Except UsageError Given := do
  match setting with
  | .libraryDir => return { given with libraryDir := ← place setting val given.libraryDir (path? val) }
  | .optimization =>
    let level := (number? val).bind Optimization.ofNat?
    return { given with optimization := ← place setting val given.optimization level }
  | .workers => return { given with workers := ← place setting val given.workers (workers? val) }
  | .output => return { given with output := ← place setting val given.output (path? val) }

def addFile (given : Given) (argument : String) : Except UsageError Given :=
  match given.file, path? argument with
  | none, some file => return { given with file := some file }
  | _, _ => throw (.unexpected argument)

/-- What was given later wins. -/
def merge (later earlier : Given) : Given where
  libraryDir := later.libraryDir <|> earlier.libraryDir
  optimization := later.optimization <|> earlier.optimization
  workers := later.workers <|> earlier.workers
  output := later.output <|> earlier.output
  file := later.file <|> earlier.file

end Given

inductive Argument where
  | plain (text : String)
  /-- Only plain arguments follow. -/
  | separator
  | setting (setting : Setting) (val : Option String)
  | version
  | help
  | unknown

/-- A long option and the value after its equals sign. -/
def longOption (body : List Char) : Argument :=
  let name := String.ofList (body.takeWhile (· ≠ '='))
  let val := match body.dropWhile (· ≠ '=') with
    | _ :: val => some (String.ofList val)
    | [] => none
  match name, val with
  | "lib-dir", val => .setting .libraryDir val
  | "workers", val => .setting .workers val
  | "output", val => .setting .output val
  | "version", none => .version
  | "help", none => .help
  | _, _ => .unknown

/-- The value of a short option may follow at once, also after an equals sign. -/
def attached : List Char → Option String
  | [] => none
  | '=' :: value => some (String.ofList value)
  | value => some (String.ofList value)

def shortOption (letter : Char) (rest : List Char) : Argument :=
  match letter with
  | 'O' => .setting .optimization (attached rest)
  | 'o' => .setting .output (attached rest)
  | 'V' => .version
  | 'h' => .help
  | _ => .unknown

def Argument.ofText (text : String) : Argument :=
  match text.toList with
  | ['-', '-'] => .separator
  | '-' :: '-' :: body => longOption body
  | '-' :: letter :: rest => shortOption letter rest
  | _ => .plain text

/-- How reading one part of the line ended. -/
inductive Part where
  /-- At a command, with the arguments after it, or at the end. -/
  | done (given : Given) (command : Option (Task × List String))
  | version
  | help

/-- Read arguments up to the command, or, after it, to the end. -/
def readPart (task : Option Task) (given : Given) : List String → Except UsageError Part
  | [] => return .done given none
  | argument :: rest => match Argument.ofText argument with
    | .unknown => throw (.unexpected argument)
    | .help => return .help
    | .version => if task.isNone then return .version else throw (.unexpected argument)
    | .plain text => match task with
      | some _ => do readPart task (← given.addFile text) rest
      | none => match Task.ofName? text with
        | some found => return .done given (some (found, rest))
        | none => if text = "help" then return .help else throw (.unexpected text)
    | .separator => match task, rest with
      | _, [] => return .done given none
      | some _, files => do return .done (← files.foldlM Given.addFile given) none
      | none, text :: _ => throw (.unexpected text)
    | .setting setting val =>
      if setting = .output && ! task.any Task.hasOutput then throw (.unexpected argument)
      else match val, rest with
        | some val, rest => do readPart task (← given.assign setting val) rest
        | none, val :: rest => match Argument.ofText val with
          | .plain val => do readPart task (← given.assign setting val) rest
          | _ => throw (.missingValue setting.text)
        | none, [] => throw (.missingValue setting.text)

/-- Understand a command line. `library` is the library directory that the environment names. -/
def read (library : Option String) (args : List String) : Except UsageError Request := do
  match ← readPart none {} args with
  | .version => return .version
  | .help => return .help
  | .done _ none => throw .noCommand
  | .done before (some (task, rest)) => match ← readPart (some task) {} rest with
    | .version => return .version
    | .help => return .help
    | .done after _ => do
      let given := after.merge before
      let fallback ← library.mapM fun text => match path? text with
        | some path => pure path
        | none => throw (.badValue Setting.libraryDir.text text)
      match given.file with
      | none => throw .noFile
      | some file => return .perform task file given.output {
          libraryDir := given.libraryDir <|> fallback
          build := { optimization := given.optimization.getD 0 }
          workers := given.workers.getD 4 }

end TernLang.CommandLine
