/-
Errors.

One type covers everything that can go wrong between the name of a template and its output.
Each constructor is a cause and carries what the cause is about; the wording is in `message`.
-/
import Stencil.Decimal.Layout

namespace Stencil

/-- Why a load, a render or a build failed. -/
inductive Error where
  /-- The text of a template could not be obtained. -/
  | fetch (url reason : String)
  /-- The source of a template is malformed. -/
  | compile (template message : String) (line : Option Nat)
  /-- A compiled template failed on the values it was given. -/
  | render (template message : String)
  /-- A template is among its own partials; the chain of loads that leads back to it. -/
  | circularPartial (chain : List String)
  /-- Partials are nested deeper than a render allows. -/
  | partialDepth (template : String) (limit : Nat)
  /-- A bundle does not hold a module; it may hold similar ones. -/
  | moduleNotFound (id : String) (suggestions : List String)
  /-- The definition of a module cannot be read or contradicts itself. -/
  | invalidModule (id reason : String)
  /-- The partials found for a module are not the ones it declares. -/
  | dependencyMismatch (module : String) (expected found : Nat)
  /-- The configuration cannot be used. -/
  | configuration (reason : String)
  /-- A module could not be stored. -/
  | write (id reason : String)
  /-- Anything else. -/
  | other (reason : String)
deriving DecidableEq, Repr

/-- The decimal text of a natural number. -/
def natText (n : Nat) : String := String.ofList (Decimal.natDigits n)

namespace Error

/-- The wording of an error. -/
def message : Error → String
  | fetch url reason => "Failed to fetch '" ++ url ++ "': " ++ reason
  | compile template reason _ => "Failed to compile template '" ++ template ++ "': " ++ reason
  | render template reason => "Failed to render template '" ++ template ++ "': " ++ reason
  | circularPartial chain =>
    "Circular partial reference detected: " ++ " -> ".intercalate chain
  | partialDepth template limit =>
    "Partial nesting in '" ++ template ++ "' exceeds the maximum depth of " ++ natText limit
  | moduleNotFound id _ => "Module '" ++ id ++ "' not found"
  | invalidModule id reason => "Invalid module definition '" ++ id ++ "': " ++ reason
  | dependencyMismatch module expected found =>
    "Module '" ++ module ++ "' declares " ++ natText expected ++ " dependencies but " ++
      natText found ++ " were resolved"
  | configuration reason => "Configuration error: " ++ reason
  | write id reason => "Failed to write module '" ++ id ++ "': " ++ reason
  | other reason => reason

/-- What an error means, where that is worth saying. -/
def details? : Error → Option String
  | fetch _ _ =>
    some "A template loads only if it and every partial it references can be fetched"
  | compile _ _ (some line) =>
    some ("The template engine reported the problem at line " ++ natText line)
  | compile _ _ none => some "The template engine rejected the template source"
  | circularPartial _ =>
    some "Partials are loaded eagerly, so a template cannot include itself through its partials"
  | moduleNotFound _ _ =>
    some "Build output only contains modules for templates loaded during the build"
  | _ => none

/-- What to do about an error, where there is something. -/
def suggestion? : Error → Option String
  | fetch _ _ =>
    some ("Check that the template exists under the template root and that its name " ++
      "does not include the extension")
  | compile _ _ _ =>
    some ("Check for unclosed \x7b\x7b \x7d\x7d or \x7b% %\x7d delimiters and malformed " ++
      "\x7b\x7b> partial \x7d\x7d tags")
  | render _ _ =>
    some "Check that every variable used by the template is present in the render context"
  | circularPartial _ => some "Remove the partial reference that creates the cycle"
  | partialDepth _ _ =>
    some ("Flatten the partial hierarchy or check for runtime partials that include " ++
      "each other")
  | moduleNotFound _ [] => none
  | moduleNotFound _ suggestions =>
    some ("Did you mean one of: " ++ ", ".intercalate suggestions)
  | invalidModule _ _ | dependencyMismatch _ _ _ =>
    some ("Regenerate the module with 'hgn build'; generated modules should not be edited " ++
      "by hand")
  | configuration _ =>
    some "Check the loader configuration file (see 'hgn --help' for the available options)"
  | write _ _ => some "Check that the output directory exists and is writable"
  | other _ => none

end Error

end Stencil
