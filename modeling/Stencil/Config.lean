/-
Loader configuration.

A configuration says how the name of a template becomes the path of its text, how the names
of partials are resolved, and which plugin the modules of a build belong to.
-/
import Stencil.Error
import Stencil.Options
import Stencil.Text.Search

namespace Stencil

/-- What happens to a partial whose name does not contain the delimiter. -/
inductive LocalPartials where
  /-- It is loaded like any other partial. -/
  | load
  /-- It is never loaded and has to be supplied for a render. -/
  | runtime
deriving DecidableEq, Repr

/-- The spelling of the policies in configuration files. -/
def LocalPartials.names : List (String × LocalPartials) := [("load", .load), ("runtime", .runtime)]

/-- The spelling of a policy. -/
def LocalPartials.name : LocalPartials → String
  | .load => "load"
  | .runtime => "runtime"

/-- The configuration of a loader. -/
structure Config where
  /-- What is appended to the name of a template to find its text. -/
  extension : String := ".mustache"
  options : Options := {}
  /-- What marks the name of a partial as a path. -/
  delimiter : String := "/"
  /-- What is put in front of paths that are neither relative nor absolute. -/
  pathPrefix : Option String := none
  localPartials : LocalPartials := .load
  /-- What module identifiers start with. -/
  plugin : String := "hgn"

/-- What stands between the plugin and the name in the identifier of a module. -/
def pluginSeparator : Char := '!'

/-- Why a configuration cannot be used. -/
inductive Config.Problem where
  | emptyDelimiter
  | badPlugin (plugin : String)
deriving DecidableEq, Repr

/-- The wording of a problem. -/
def Config.Problem.message : Problem → String
  | emptyDelimiter => "delimiter must not be empty"
  | badPlugin plugin =>
    "plugin_name '" ++ plugin ++ "' must be non-empty and must not contain '!'"

namespace Config

/-- The first problem of a configuration. -/
def problem? (c : Config) : Option Problem :=
  if c.delimiter = "" then some .emptyDelimiter
  else if c.plugin = "" ∨ pluginSeparator ∈ c.plugin.toList then some (.badPlugin c.plugin)
  else none

/-- Refuses a configuration that cannot be used. -/
def check (c : Config) : Except Error Unit :=
  match c.problem? with
  | some problem => .error (.configuration problem.message)
  | none => .ok ()

/-- The path prefix with the delimiter at its end; an empty prefix is none. -/
def prefix? (c : Config) : Option String :=
  match c.pathPrefix with
  | none => none
  | some start =>
    if start = "" then none
    else if c.delimiter.toList.isSuffixOf start.toList then some start
    else some (start ++ c.delimiter)

/-- The path of the text of a template. -/
def fetchPath (c : Config) (name : String) : String := name ++ c.extension

end Config

/-- The identifier of a plugin's module of a given name. -/
def moduleId (plugin name : String) : String := plugin ++ pluginSeparator.toString ++ name

end Stencil
