/-
Renders in progress.

A render reads the sheets and the given values, changes the scope, and ends in a problem or a
result.  The scope outlives a problem, for a condition that fails counts as false and the
render goes on.
-/
import Stencil.Language.Sheet
import Stencil.Render.Problem
import Stencil.Render.Variable

namespace Stencil.Render

open Stencil.Language (Expr Node Sheet)

/-- What a render works with: the sheets under their keys, and the given values. -/
structure Stage where
  sheets : Dict Sheet
  given : Dict Json

/-- A part of a render. -/
abbrev Run := ExceptT Problem (StateM Scope)

/-- The four ways to make something of a part of a template.  The steps of the evaluation take
them as given, so that each step can be told on its own.  The switch `escape` asks for the
escaping of what is printed. -/
structure Evaluators where
  value : (escape : Bool) → Expr → Run Json
  condition : (escape : Bool) → Expr → Run Bool
  /-- The value of an expression in arithmetic; none if it is no finite number. -/
  number : (escape : Bool) → Expr → Run (Option Number)
  body : (escape : Bool) → List Node → Run String

/-- Lifts an outcome that leaves the scope alone. -/
def settle {ε α : Type} (problem : ε → Problem) (outcome : Except ε α) : Run α :=
  match outcome with
  | .ok a => pure a
  | .error e => throw (problem e)

/-- The value of a variable in the scope at hand. -/
def readVariable (stage : Stage) (path : String) : Run (Except Problem Json) := do
  return variableValue stage.given (← get) path

end Stencil.Render
