import TernLang.CommandLine.Perform

/-! The command itself. It takes a picture of the files that a command line can touch, carries the
command out on the picture, and puts back the files that were written. No programs are started,
so a build ends where it needs a driver. -/
namespace TernLang.Main

/-- Nanoseconds of a file time. -/
def nanoseconds (time : IO.FS.SystemTime) : Nat := time.sec.toNat * 1000000000 + time.nsec.toNat

/-- Take what is at one place. -/
def takePlace (disk : Disk) (place : Disk.Place) : IO Disk := do
  try
    let real ← IO.FS.realPath (Disk.pathOf place).text
    if ← real.isDir then return { disk with nodes := disk.nodes.insertNew place .directory }
    let time := nanoseconds (← real.metadata).modified
    let file : Disk.File := ⟨← IO.FS.readBinFile real, time⟩
    return { disk with nodes := disk.nodes.insertNew place (.file file), clock := max disk.clock time }
  catch _ => return disk

/-- Take what is at a path and the directories on the way to it. -/
def takePath (disk : Disk) (path : Path) : IO Disk := do
  let step := fun ((disk, place) : Disk × Disk.Place) (piece : List Char) => do
    let place := Disk.enter place piece
    return (← takePlace disk place, place)
  let (disk, _) ← (Text.segments '/' path.text.toList).foldlM step (disk, disk.start path)
  return disk

/-- Take a source file, the artifacts beside it, and what it imports. -/
partial def takeSource (library : Option Path) (disk : Disk) (path : Path) : IO Disk := do
  if disk.exists? path then return disk
  let disk ← takePath disk path
  match disk.canonical? path, disk.text? path with
  | some file, some text =>
    let dep : Dependency := { file }
    let disk ← takePath disk dep.object
    let disk ← takePath disk dep.listing
    match Program.parse file text with
    | .error _ => return disk
    | .ok prog =>
      let wanted := prog.importRequests.flatMap fun req =>
        importCandidates library prog.directory req.name
      wanted.foldlM (takeSource library) disk
  | _, _ => return disk

/-- The picture that a request needs. -/
def picture (req : CommandLine.Request) : IO Disk := do
  let here := (← IO.FS.realPath ".").toString
  let place := (Text.segments '/' here.toList).foldl Disk.enter []
  let disk ← takePath { here := place } ⟨here⟩
  match req with
  | .perform _ file output cfg => do
    let disk ← takeSource cfg.libraryDir disk file
    takePath disk (output.getD (file.withExtension ""))
  | _ => return disk

/-- Put back the files that are newer than the picture. -/
def putBack (start : Nat) (disk : Disk) : IO Unit := do
  for (place, node) in disk.nodes.entries do
    if let .file file := node then
      if start < file.time then IO.FS.writeBinFile (Disk.pathOf place).text file.content

end TernLang.Main

open TernLang in
def main (args : List String) : IO UInt32 := do
  let library ← IO.getEnv "TERN_LIB"
  let disk ← match CommandLine.read library args with
    | .ok req => TernLang.Main.picture req
    | .error _ => pure {}
  let (exit, after) := CommandLine.execute library args disk
  TernLang.Main.putBack disk.clock after
  IO.print exit.output
  IO.eprint exit.diagnostics
  return exit.code.toUInt32
