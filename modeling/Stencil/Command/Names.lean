/-
Naming the templates of a build.

A name with a wildcard is a pattern for the files below the root.  It stands for the names of
the templates that match, in the order in which they are found.
-/
import Stencil.Files.Glob
import Stencil.Report

namespace Stencil

namespace Command

/-- Whether a name is a pattern. -/
def isPattern (name : String) : Bool := name.toList.any ['*', '?', '['].contains

/-- The name of the template in a file below the root; none for other files.  A name has slashes
where the path has backslashes. -/
def templateName? (root fileEnd path : String) : Option String := do
  let below := (← Path.relativeTo? root path).toList.map fun c => if c = '\\' then '/' else c
  let name ← Text.strip? fileEnd.toList.reverse below.reverse
  return String.ofList name.reverse

/-- The names that a pattern stands for, of which there has to be one. -/
def matching (files : FileSystem) (root fileEnd pattern : String) :
    Except Failure (List String) :=
  match files.glob (Path.join root (pattern ++ fileEnd)) with
  | .error fault => .error ⟨.plain fault.message, ["Invalid pattern '" ++ pattern ++ "'"]⟩
  | .ok paths =>
    match paths.filterMap (templateName? root fileEnd) with
    | [] =>
      .error { cause := .plain
                ("Pattern '" ++ pattern ++ "' matched no templates under " ++ root) }
    | names => .ok names

/-- Drops every element that is the same as the one in front of it. -/
def dropRepeated : List String → List String
  | a :: b :: rest => if a = b then dropRepeated (b :: rest) else a :: dropRepeated (b :: rest)
  | short => short

/-- The names of the templates that some names and patterns stand for.  A name that follows
itself counts once. -/
def expandNames (files : FileSystem) (root fileEnd : String) (names : List String) :
    Except Failure (List String) := do
  let each ← names.mapM fun name =>
    if isPattern name then matching files root fileEnd name else .ok [name]
  return dropRepeated each.flatten

end Command

end Stencil
