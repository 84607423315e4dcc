/-
Carrying out commands.

A command reads files, may write some, and says one thing at the end: the rendered text, how
much was built, or what went wrong.
-/
import Stencil.Bundle.Directory
import Stencil.Command
import Stencil.Command.Names
import Stencil.Config.File
import Stencil.Loader

namespace Stencil

namespace Command

/-- The text of a file, which was read for some purpose. -/
def readFor (files : FileSystem) (attempt path : String) : Except Failure String :=
  match files.readText path with
  | .ok text => .ok text
  | .error fault => .error ⟨.file (fault = .notFound) fault.message, [attempt]⟩

/-- An outcome of the library as one of a command. -/
def orFailure {α : Type} : Except Error α → Except Failure α
  | .ok value => .ok value
  | .error e => .error { cause := .error e }

/-- The configuration to follow. -/
def configuration (files : FileSystem) : Option String → Except Failure Config
  | none => .ok {}
  | some path => do
    Config.ofFile path (← readFor files ("Failed to read config file: " ++ path) path)

/-- What is said about values that have no names. -/
def notAnObject : String :=
  "Creating a Context from a Value/Serialize requires it being a JSON object"

/-- The values in a file. -/
def contextOf (files : FileSystem) (path : String) : Except Failure (Dict Json) := do
  let text ← readFor files ("Failed to read context file " ++ path) path
  match Json.Decoder.ofText Json.Decoder.any text with
  | .error m => throw ⟨.plain m.message, ["Invalid JSON in context file " ++ path]⟩
  | .ok (.object members) => return members
  | .ok _ =>
    throw ⟨.plain notAnObject, ["Context file " ++ path ++ " must contain a JSON object"]⟩

/-- The name and the path in the argument for a partial. -/
def partialParts (argument : String) : Except Failure (String × String) :=
  match Text.splitOnce? '=' argument.toList with
  | some (name@(_ :: _), path@(_ :: _)) => .ok (String.ofList name, String.ofList path)
  | _ =>
    .error { cause := .plain ("Invalid partial '" ++ argument ++ "': expected NAME=PATH") }

/-- A partial given at run time. -/
def partialOf (files : FileSystem) (config : Config) (argument : String) :
    Except Failure (String × Closure) := do
  let (name, path) ← partialParts argument
  let text ← readFor files ("Failed to read partial '" ++ name ++ "' from " ++ path) path
  let template ← orFailure (Template.compile name text config.options)
  return (name, .mk template [])

/-- The file in the argument for a partial. -/
def partialPath? (argument : String) : Option String :=
  (partialParts argument).toOption.map Prod.snd

/-- The module to render. -/
def moduleOf (files : FileSystem) (config : Config) (name : String) : Origin →
    Except Error Module
  | .bundle directory =>
    let load : Bundling Module := do
      let _ ← Bundle.addDirectory files directory
      Bundle.load (moduleId config.plugin name)
    (load.run.run {}).1
  | .web base => fromStore (.web base)
  | .directory root => fromStore (.directory root)
where
  /-- The module of a template in a store. -/
  fromStore (store : TextStore) : Except Error Module := do
    let loader ← Loader.ofConfig config store false
    ((Loader.load files name).run.run loader).1

/-- What is said when modules were built. -/
def builtText (written templates : Nat) (out : String) : String :=
  "✓ Wrote " ++ natText written ++ " module(s) for " ++ natText templates ++
    " template(s) to " ++ out

/-- The records of the templates of a build and of their partials. -/
def recordsOf (files : FileSystem) (config : Config) (root : String) (names : List String) :
    Except Error BuildSession := do
  let loader ← Loader.ofConfig config (.directory root) true
  match (Loader.loadAll files names).run.run loader with
  | (.ok _, loader) => return loader.session
  | (.error e, _) => throw e

end Command

namespace RenderCommand

open Command

/-- Renders a template. -/
def run (files : FileSystem) (config : Config) (c : RenderCommand) :
    Except Failure String := do
  let given ← match c.context with
    | some path => contextOf files path
    | none => .ok []
  let runtime := Dict.ofPairs (← c.partials.mapM (partialOf files config))
  let m ← orFailure (moduleOf files config c.name c.origin)
  orFailure (m.closure.render given runtime c.indent)

end RenderCommand

namespace BuildCommand

open Command

/-- Builds modules, and returns what is said about them with the files afterwards. -/
def run (files : FileSystem) (config : Config) (c : BuildCommand) :
    Except Failure String × FileSystem :=
  let prepared : Except Failure (List String × BuildSession) := do
    let names ← expandNames files c.root config.extension c.names
    return (names, ← orFailure (recordsOf files config c.root names))
  match prepared with
  | .error f => (.error f, files)
  | .ok (names, session) =>
    match (session.writeAll config.plugin ModuleDirectory.sink).run.run
        (files, { root := c.out }) with
    | (.ok written, files, _) => (.ok (builtText written names.length c.out), files)
    | (.error e, files, _) => (.error { cause := .error e }, files)

end BuildCommand

/-- What a command leaves behind. -/
structure Outcome where
  /-- What was to be said, or what went wrong. -/
  said : Except Failure String
  files : FileSystem

namespace Outcome

/-- The status for the system. -/
def status (o : Outcome) : Nat := if o.said.toBool then 0 else 1

/-- The lines for those who asked for the command. -/
def output (o : Outcome) : List String :=
  match o.said with
  | .ok text => [text]
  | .error _ => []

/-- The lines about what went wrong. -/
def complaint (o : Outcome) : List String :=
  match o.said with
  | .ok _ => []
  | .error f => (Report.ofFailure f).lines "error: " "details: " "suggestion: "

end Outcome

namespace Origin

/-- Where the files of templates are looked for. -/
def paths : Origin → List String
  | directory root => [root]
  | web _ => []
  | bundle modules => [modules]

end Origin

namespace Invocation

/-- The files and directories that a command may look at or write to. -/
def paths (i : Invocation) : List String :=
  i.config.toList ++
    match i.command with
    | .render c =>
      c.origin.paths ++ c.context.toList ++ c.partials.filterMap Command.partialPath?
    | .build c => [c.root, c.out]

/-- Carries out what a person asked for. -/
def run (i : Invocation) (files : FileSystem) : Outcome :=
  match Command.configuration files i.config with
  | .error f => ⟨.error f, files⟩
  | .ok config =>
    match i.command with
    | .render c => ⟨c.run files config, files⟩
    | .build c =>
      let (said, files) := c.run files config
      ⟨said, files⟩

end Invocation

end Stencil
