/-
The arguments that have names.

An argument may be given before the name of a command, where only the common ones are known, or
behind it.  This module lists the arguments of each place.
-/
namespace Stencil

namespace Command

/-- A place for arguments: in front of the name of a command, or behind it. -/
inductive Place where
  | front
  | render
  | build
deriving DecidableEq, Repr

/-- The arguments that have names. -/
inductive Label where
  | verbose | quiet | config | help | version
  | root | url | bundle | context | partials | indent | out
deriving DecidableEq, Repr

/-- What an argument wants behind its name. -/
inductive Want where
  | nothing
  /-- A text, which may be empty. -/
  | text
  /-- A path, which may not. -/
  | path
deriving DecidableEq, Repr

/-- An argument with its names. -/
structure Entry where
  label : Label
  long : String
  short : Option Char := none
  want : Want := .nothing
  /-- Whether it may be given more than once. -/
  repeatable : Bool := false
deriving DecidableEq, Repr

/-- The arguments that are known everywhere.  How much is told while a command runs does not
change what it does, and nothing is told here. -/
def commonEntries : List Entry :=
  [{ label := .verbose, long := "verbose", short := some 'v' },
   { label := .quiet, long := "quiet", short := some 'q' },
   { label := .config, long := "config", short := some 'c', want := .path },
   { label := .help, long := "help", short := some 'h' }]

namespace Place

/-- The arguments that are known in one place only. -/
def ownEntries : Place → List Entry
  | front => [{ label := .version, long := "version", short := some 'V' }]
  | render =>
    [{ label := .root, long := "root", want := .path },
     { label := .url, long := "url", want := .text },
     { label := .bundle, long := "bundle", want := .path },
     { label := .context, long := "context", want := .path },
     { label := .partials, long := "partial", want := .text, repeatable := true },
     { label := .indent, long := "indent", want := .text }]
  | build =>
    [{ label := .root, long := "root", want := .path },
     { label := .out, long := "out", want := .path }]

/-- The arguments that are known in a place. -/
def entries (p : Place) : List Entry := commonEntries ++ p.ownEntries

/-- The argument with a long name. -/
def long? (p : Place) (name : String) : Option Entry := p.entries.find? (·.long = name)

/-- The argument with a short name. -/
def short? (p : Place) (name : Char) : Option Entry := p.entries.find? (·.short = some name)

/-- How many arguments without a name are wanted; none where there is no limit. -/
def capacity : Place → Option Nat
  | front => some 0
  | render => some 1
  | build => none

/-- The arguments that may not be given together. -/
def conflicts : Place → List (Label × Label)
  | render =>
    [(.verbose, .quiet), (.root, .url), (.root, .bundle), (.url, .bundle)]
  | front | build => [(.verbose, .quiet)]

/-- The places behind the names of the commands. -/
def ofCommand? : String → Option Place
  | "render" => some render
  | "build" => some build
  | _ => none

/-- The name under which help is asked for. -/
def helpName : String := "help"

/-- Whether a word is the name of a command. -/
def isCommandName (word : String) : Bool := word = helpName || (ofCommand? word).isSome

end Place

end Command

end Stencil
