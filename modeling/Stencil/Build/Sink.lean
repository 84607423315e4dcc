/-
Sinks for the modules of a build.

A sink takes the texts of modules one at a time.  The directory sink gives each module a file
below its root, and refuses identifiers that name no such file.
-/
import Stencil.Build.ModuleText
import Stencil.Bundle
import Stencil.Files.Tree

namespace Stencil

/-- What takes the texts of modules, with the state `σ` it keeps. -/
structure Sink (σ : Type) where
  write : (id text : String) → ExceptT Error (StateM σ) Unit

/-- What a writer of modules does with a sink. -/
abbrev Writing (σ : Type) := ExceptT Error (StateM σ)

namespace Sink

/-- Lists the texts in the order in which they come. -/
def list : Sink (List String) where
  write _ text := modify (· ++ [text])

/-- Keeps the texts by the identifiers of their modules. -/
def dict : Sink (Dict String) where
  write id text := modify (Dict.insert id text)

/-- Adds the modules to a bundle. -/
def bundle : Sink Bundle where
  write _ text := do
    let _ ← Bundle.add text

end Sink

/-- A directory for the files of modules, and the paths of the files written so far. -/
structure ModuleDirectory where
  root : String
  written : List String := []

namespace ModuleDirectory

/-- What the names of module files end with. -/
def fileEnd : String := ".module.json"

/-- The path of a module below the root, without the end of its name.  It is the name behind
the plugin in normal form; a name that is empty or leaves the root has none. -/
def relativePath? (id : String) : Option (List Char) :=
  let name := ((Text.splitOnce? pluginSeparator id.toList).map (·.2)).getD id.toList
  let path := Path.relativeChars (Path.normalizeChars name)
  if path.isEmpty || (Path.segments path).contains Path.parent then none else some path

/-- The path of the file of a module. -/
def modulePath (d : ModuleDirectory) (id : String) : Except Error String :=
  match relativePath? id with
  | some path => .ok (Path.join d.root (String.ofList (path ++ fileEnd.toList)))
  | none => .error (.write id "module id does not name a file under the output directory")

/-- Writes the file of a module and makes the directories above it.  Directories that were made
before a fault stay. -/
def write (id text : String) : Writing (FileSystem × ModuleDirectory) Unit := do
  let (files, d) ← get
  match d.modulePath id with
  | .error e => throw e
  | .ok path =>
    let refuse (fault : FileFault) : Writing (FileSystem × ModuleDirectory) Unit :=
      throw (.write id (path ++ ": " ++ fault.message))
    let (above, files) := files.makeParents path
    set (files, d)
    match above with
    | .error fault => refuse fault
    | .ok () =>
      match files.writeText path text with
      | .error fault => refuse fault
      | .ok files => set (files, { d with written := d.written ++ [path] })

/-- Writes each module to a file of its own. -/
def sink : Sink (FileSystem × ModuleDirectory) where
  write := write

end ModuleDirectory

namespace BuildSession

/-- Writes the module of a template, which may be named with its plugin in front.  Where
nothing was recorded nothing is written. -/
def write {σ : Type} (plugin : String) (s : BuildSession) (name : String) (sink : Sink σ) :
    Writing σ Bool := do
  let templateId := (ModuleDefinition.templateOf? plugin name).getD name
  match Dict.get? templateId s with
  | none => return false
  | some record =>
    sink.write (moduleId plugin templateId) (ModuleText.write plugin record)
    return true

/-- Writes the modules of several templates and counts them. -/
def writeEach {σ : Type} (plugin : String) (s : BuildSession) (sink : Sink σ) :
    List String → Writing σ Nat
  | [] => pure 0
  | id :: rest => do
    let written ← s.write plugin id sink
    let count ← s.writeEach plugin sink rest
    return (if written then 1 else 0) + count

/-- Writes all recorded modules in the order of their templates. -/
def writeAll {σ : Type} (plugin : String) (s : BuildSession) (sink : Sink σ) : Writing σ Nat :=
  s.writeEach plugin sink s.keys

end BuildSession

end Stencil
