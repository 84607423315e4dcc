/-
The program.

The files that a command may look at are read, the command is carried out on them, and the
files that it made are written.
-/
import Stencil.Command.Run
import Stencil.Command.Usage

namespace Stencil

/-- The tree at a path; what cannot be read is not in it. -/
partial def readTree (path : String) : IO (Option FileTree) := do
  try
    let place ← IO.FS.realPath path
    if ← place.isDir then
      let mut entries : Dict FileTree := []
      for entry in ← place.readDir do
        if let some t ← readTree (Path.join path entry.fileName) then
          entries := entries.insert entry.fileName t
      return some (.directory entries)
    else return some (.file (← IO.FS.readBinFile path))
  catch _ => return none

/-- The names that lead to a path from the root. -/
def namesOf (workDir path : String) : List String :=
  let whole := (Path.normalize (Path.join workDir path)).toList
  ((Path.segments whole).filter (· ≠ [])).map String.ofList

/-- The files at some paths, as seen from the working directory. -/
def snapshot (paths : List String) : IO FileSystem := do
  let workDir := (← IO.currentDir).toString
  let mut root := FileTree.directory []
  for path in "." :: paths do
    let names := namesOf workDir path
    if (root.at? names).isNone then
      if let some t ← readTree path then root := FileTree.put t names root
  return { root := root, workDir := namesOf workDir "." }

/-- Writes files, with the directories that they are in. -/
def writeBack (files : List (String × ByteArray)) : IO Unit := do
  for (path, content) in files do
    if let some above := FileSystem.parentPath? path then IO.FS.createDirAll above
    IO.FS.writeBinFile path content

/-- Runs the program with the words that a person typed, and returns the status for the
system. -/
def start (arguments : List String) : IO Nat := do
  match Invocation.ofArguments arguments with
  | .error stop =>
    for line in stop.lines do
      if stop.status = 0 then IO.println line else IO.eprintln line
    return stop.status
  | .ok invocation =>
    let files ← snapshot invocation.paths
    let outcome := invocation.run files
    writeBack (outcome.files.changesSince files)
    for line in outcome.output do IO.println line
    for line in outcome.complaint do IO.eprintln line
    return outcome.status

end Stencil

/-- The entry of the program. -/
def main (arguments : List String) : IO UInt32 := do
  return (← Stencil.start arguments).toUInt32
