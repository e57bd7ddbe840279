import TernLang.Error

/-! A disk: files and directories below one root, and a clock that every write moves on. Paths
are followed name by name, so a path through a file or a missing directory leads nowhere. -/
namespace TernLang

structure Disk.File where
  content : ByteArray
  /-- The clock when it was written. -/
  time : Nat

inductive Disk.Node where
  | file (file : File)
  | directory

/-- Names from the root down. -/
abbrev Disk.Place := List String

structure Disk where
  nodes : Table Disk.Place Disk.Node := {}
  /-- Where relative paths start. -/
  here : Disk.Place := []
  clock : Nat := 0

namespace Disk

/-- The root is always there. -/
def node? (disk : Disk) (place : Place) : Option Node :=
  if place.isEmpty then some .directory else disk.nodes.get? place

/-- One step along a path; the root is its own parent. -/
def enter (place : Place) (piece : List Char) : Place :=
  if Path.silent piece then place
  else if piece == ['.', '.'] then place.dropLast
  else place ++ [String.ofList piece]

/-- Follow pieces of a path; every place on the way has to be a directory. -/
def walk (disk : Disk) (place : Place) : List (List Char) → Except SystemError Place
  | [] => if (disk.node? place).isSome then return place else throw .notFound
  | piece :: pieces => match disk.node? place with
    | none => throw .notFound
    | some (.file _) => throw .notDirectory
    | some .directory => walk disk (enter place piece) pieces

def start (disk : Disk) (path : Path) : Place := if path.isAbsolute then [] else disk.here

def locate (disk : Disk) (path : Path) : Except SystemError Place :=
  if path.text.isEmpty then throw .notFound
  else disk.walk (disk.start path) (Text.segments '/' path.text.toList)

/-- The one absolute path of a place without detours. -/
def pathOf (place : Place) : Path := ⟨"/" ++ "/".intercalate place⟩

def canonical? (disk : Disk) (path : Path) : Option Path := (disk.locate path).toOption.map pathOf

def exists? (disk : Disk) (path : Path) : Bool := (disk.locate path).toOption.isSome

def file? (disk : Disk) (path : Path) : Option File :=
  match (disk.locate path).toOption.bind disk.node? with
  | some (.file file) => some file
  | _ => none

def isFile (disk : Disk) (path : Path) : Bool := (disk.file? path).isSome

def text? (disk : Disk) (path : Path) : Option String :=
  (disk.file? path).bind fun file => String.fromUTF8? file.content

/-- When a path was last changed; a directory counts as newer than every file. -/
def modified? (disk : Disk) (path : Path) : Option Nat :=
  match (disk.locate path).toOption.bind disk.node? with
  | some (.file file) => some file.time
  | some .directory => some (disk.clock + 1)
  | none => none

/-- The place of a file to be written. Its directory must be there; a path that ends in a slash
names no file. -/
def target (disk : Disk) (path : Path) : Except SystemError Place := do
  let pieces := Text.segments '/' path.text.toList
  let named := Text.trimRight List.isEmpty pieces
  match named.getLast? with
  | none => throw (if path.text.isEmpty then .notFound else .isDirectory)
  | some last => do
    let directory ← disk.walk (disk.start path) named.dropLast
    let place := enter directory last
    match disk.node? directory, disk.node? place with
    | some .directory, some .directory => throw .isDirectory
    | some .directory, some (.file _) =>
      if named.length < pieces.length then throw .notDirectory else return place
    | some .directory, none =>
      if named.length < pieces.length then throw .isDirectory else return place
    | _, _ => throw .notDirectory

/-- A file put at a place, with a new time. -/
def put (disk : Disk) (place : Place) (content : ByteArray) : Disk :=
  { disk with
    nodes := disk.nodes.insert place (.file ⟨content, disk.clock + 1⟩)
    clock := disk.clock + 1 }

def write (disk : Disk) (path : Path) (content : ByteArray) : Except SystemError Disk := do
  return disk.put (← disk.target path) content

/-- Make the directories along some pieces that are not there. -/
def makeFrom (disk : Disk) (place : Place) : List (List Char) → Except SystemError Disk
  | [] => return disk
  | piece :: pieces =>
    let next := enter place piece
    match disk.node? next with
    | some .directory => makeFrom disk next pieces
    | some (.file _) => throw .notDirectory
    | none => makeFrom { disk with nodes := disk.nodes.insert next .directory } next pieces

def makeDirectories (disk : Disk) (path : Path) : Except SystemError Disk :=
  disk.makeFrom (disk.start path) (Text.segments '/' path.text.toList)

/-- Write a file and the directories it is in. -/
def save (disk : Disk) (path : Path) (content : ByteArray) : Except SystemError Disk := do
  match path.parent? with
  | some parent => (← disk.makeDirectories parent).write path content
  | none => disk.write path content

/-- Remove a file; directories stay. -/
def remove? (disk : Disk) (path : Path) : Option Disk :=
  match disk.locate path with
  | .ok place => match disk.node? place with
    | some (.file _) => some { disk with nodes := ⟨disk.nodes.entries.filter (·.1 ≠ place)⟩ }
    | _ => none
  | .error _ => none

def setTime (disk : Disk) (path : Path) (time : Nat) : Disk :=
  match disk.locate path with
  | .ok place => match disk.node? place with
    | some (.file file) =>
      { disk with nodes := disk.nodes.insert place (.file { file with time }), clock := max disk.clock time }
    | _ => disk
  | .error _ => disk

def touch (disk : Disk) (path : Path) : Disk := disk.setTime path (disk.clock + 1)

def touchLike (disk : Disk) (path other : Path) : Disk :=
  match disk.file? other with
  | some file => disk.setTime path file.time
  | none => disk

end Disk
end TernLang
