/-
Bundles from files.

A build leaves one file for each module, and a bundle is filled from the directory that the
files are in.  Whatever lies beside them there is left alone.
-/
import Stencil.Build.Sink
import Stencil.Files.Glob

namespace Stencil

namespace Bundle

/-- The pattern of the module files below a directory. -/
def filePattern (directory : String) : String :=
  Path.join directory ("**/*" ++ ModuleDirectory.fileEnd)

/-- Adds the module of one file. -/
def addFile (files : FileSystem) (path : String) : Bundling Unit :=
  match files.readText path with
  | .ok text => do
    let _ ← add text
  | .error fault => throw (.fetch path fault.message)

/-- Adds the modules of all files below a directory and counts the files.  Those in front of
one that fails stay added. -/
def addDirectory (files : FileSystem) (directory : String) : Bundling Nat :=
  match files.glob (filePattern directory) with
  | .error fault => throw (.fetch (filePattern directory) fault.message)
  | .ok paths => do
    paths.forM (addFile files)
    return paths.length

end Bundle

end Stencil
