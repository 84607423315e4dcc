/-
Commands.

There are two of them: one renders a template, the other builds modules from templates.  What a
person typed is read in `Command.Arguments` and carried out in `Command.Run`.
-/
import Stencil.Path

namespace Stencil

/-- Where the template of a render comes from. -/
inductive Origin where
  /-- The files below a directory. -/
  | directory (root : String)
  /-- The pages below an address of the web. -/
  | web (base : String)
  /-- The modules in a directory. -/
  | bundle (directory : String)
deriving DecidableEq, Repr

/-- A render of one template. -/
structure RenderCommand where
  name : String
  origin : Origin := .directory "."
  /-- The file with the values to render. -/
  context : Option String := none
  /-- The partials given at run time, each as a name and a path with a sign between them. -/
  partials : List String := []
  /-- What is put in front of every line. -/
  indent : String := ""
deriving DecidableEq, Repr

/-- A build of the modules of templates and of their partials. -/
structure BuildCommand where
  /-- The names of templates, and patterns for them. -/
  names : List String
  root : String := "."
  /-- The directory for the modules. -/
  out : String := "dist"
deriving DecidableEq, Repr

/-- What is to be done. -/
inductive Command where
  | render (command : RenderCommand)
  | build (command : BuildCommand)
deriving DecidableEq, Repr

/-- A command and the configuration file to follow. -/
structure Invocation where
  config : Option String := none
  command : Command
deriving DecidableEq, Repr

end Stencil
