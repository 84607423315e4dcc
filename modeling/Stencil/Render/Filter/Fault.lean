/-
What filters complain about.

Most filters ask for a value of one kind and for arguments of others; the rest of the causes
belong to single filters.
-/
import Stencil.Json.Writer
import Stencil.Render.Kind
import Stencil.Text.Quoted

namespace Stencil.Render

/-- Why a filter cannot be applied. -/
inductive FilterFault where
  | wrongValue (filter : String) (found : Json) (expected : String)
  | wrongArgument (filter argument : String) (found : Json) (expected : String)
  /-- A filter on text lacks an argument. -/
  | expectsArgument (filter argument : String)
  /-- A filter on lists or objects lacks an argument. -/
  | needsArgument (filter article argument : String)
  | uncountable
  | irreversible (found : Json)
  | notNumeric
  | notConvertible
  | unknownRounding (method : String)
  /-- The first key of a sort is of a kind that has no order. -/
  | unsortable (kind : String)
  /-- A later key of a sort is of another kind than the first one. -/
  | mixedKeys (expected : String) (found : Json)
  | noField (field : String)
  | missingKey (key : String)
  | notAnObject

/-- The wording of a fault. -/
def FilterFault.message : FilterFault → String
  | wrongValue filter found expected =>
    "Filter `" ++ filter ++ "` was called on an incorrect value: got `" ++ found.compact ++
      "` but expected a " ++ expected
  | wrongArgument filter argument found expected =>
    "Filter `" ++ filter ++ "` received an incorrect type for arg `" ++ argument ++
      "`: got `" ++ found.compact ++ "` but expected a " ++ expected
  | expectsArgument filter argument =>
    "Filter `" ++ filter ++ "` expected an arg called `" ++ argument ++ "`"
  | needsArgument filter article argument =>
    "The `" ++ filter ++ "` filter has to have " ++ article ++ " `" ++ argument ++ "` argument"
  | uncountable =>
    "Filter `length` was used on a value that isn't an array, an object, or a string."
  | irreversible found =>
    "Filter `reverse` received an incorrect type for arg `value`: got `" ++ found.compact ++
      "` but expected Array|String"
  | notNumeric => "Filter `abs` was used on a value that isn't a number."
  | notConvertible => "Filter `int` received an unexpected type"
  | unknownRounding method =>
    "Filter `round` received an incorrect value for arg `method`: got `" ++
      Text.quote method ++ "`, only common, ceil and floor are allowed"
  | unsortable kind => kind ++ " is not a sortable value"
  | mixedKeys expected found => "expected " ++ expected ++ " got " ++ found.compact
  | noField field => "attribute '" ++ field ++ "' does not reference a field"
  | missingKey key => "Filter `get` tried to get key `" ++ key ++ "` but it wasn't found"
  | notAnObject => "Filter `get` was used on a value that isn't an object"

/-- A filter maps a value and its arguments to a value. -/
abbrev Filter := Json → Dict Json → Except FilterFault Json

namespace Filter

/-- The value that a filter is applied to, read as a kind. -/
def value {α : Type} (filter : String) (kind : Kind α) (found : Json) :
    Except FilterFault α :=
  match kind.read? found with
  | some a => .ok a
  | none => .error (.wrongValue filter found kind.name)

/-- An argument that may be absent, read as a kind. -/
def argument? {α : Type} (filter name : String) (kind : Kind α) (args : Dict Json) :
    Except FilterFault (Option α) :=
  match args.get? name with
  | none => .ok none
  | some found =>
    match kind.read? found with
    | some a => .ok (some a)
    | none => .error (.wrongArgument filter name found kind.name)

/-- An argument with a default. -/
def argumentD {α : Type} (filter name : String) (kind : Kind α) (default : α)
    (args : Dict Json) : Except FilterFault α :=
  return (← argument? filter name kind args).getD default

/-- An argument that has to be there. -/
def argument {α : Type} (filter name : String) (kind : Kind α) (missing : FilterFault)
    (args : Dict Json) : Except FilterFault α := do
  match ← argument? filter name kind args with
  | some a => return a
  | none => throw missing

end Filter

end Stencil.Render
