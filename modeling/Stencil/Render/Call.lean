/-
Calls of filters, functions, tests and macros.

Arguments are evaluated without escaping, in the order of their names.  Whatever goes wrong
inside a call of the first three, in an argument or in the callee, is the reason of a problem
that names the call.
-/
import Stencil.Render.Filter
import Stencil.Render.Stage

namespace Stencil.Render

open Stencil.Language (Call Expr Macro)

/-- Names the call in which a problem came up. -/
def inCall {α : Type} (kind : Callee) (name : String) (run : Run α) : Run α :=
  tryCatch run fun problem => throw (.failedCall kind name problem)

/-- The values of arguments. -/
def argumentValues (ev : Evaluators) : List (String × Expr) → Run (Dict Json)
  | [] => pure []
  | (name, e) :: rest => do
    let value ← ev.value false e
    return (name, value) :: (← argumentValues ev rest)

/-- Applies a filter. -/
def applyFilter (ev : Evaluators) (call : Call) (value : Json) : Run Json :=
  match Filter.named? call.name with
  | none => throw (.unknownCallee .filter call.name)
  | some f => inCall .filter call.name do
    settle .filter (f value (← argumentValues ev call.args))

/-- Calls a function. -/
def callFunction (ev : Evaluators) (call : Call) : Run Json :=
  match Function.named? call.name with
  | none => throw (.unknownCallee .function call.name)
  | some f => inCall .function call.name do
    settle .function (f (← argumentValues ev call.args))

/-- Puts a variable to a test. -/
def putToTest (stage : Stage) (ev : Evaluators) (path : String) (negated : Bool)
    (name : String) (args : List Expr) : Run Bool :=
  match Test.named? name with
  | none => throw (.unknownCallee .test name)
  | some test => do
    let args ← inCall .test name (args.mapM (ev.value false))
    let found := (← readVariable stage path).toOption
    let answer ← inCall .test name (settle .test (test found args))
    return answer != negated

/-- The template in whose words macros are called at this point: the one of the last block
that was entered, or else the one being rendered. -/
def callingTemplate (scope : Scope) : String := (scope.blocks.head?.map (·.2)).getD scope.template

/-- The macros of a namespace, as seen from a template, and the template they stand in. -/
def Stage.space? (stage : Stage) (template space : String) : Option (String × Dict Macro) := do
  let sheet ← Dict.get? template stage.sheets
  match sheet.imports.reverse.find? (·.2 = space) with
  | some (file, _) => return (file, (← Dict.get? file stage.sheets).macros)
  | none => if space = "self" ∧ !sheet.macros.isEmpty then some (template, sheet.macros) else none

/-- The values that the parameters of a macro get in a call. -/
def parameterValues (ev : Evaluators) (name : String) (given : List (String × Expr)) :
    List (String × Option Expr) → Run (Dict Json)
  | [] => pure []
  | (param, default) :: rest => do
    match given.lookup param <|> default with
    | none => throw (.missingArgument name param)
    | some e =>
      let value ← ev.value false e
      return (param, value) :: (← parameterValues ev name given rest)

/-- What a macro prints. -/
def callMacro (stage : Stage) (ev : Evaluators) (escape : Bool) (space name : String)
    (args : List (String × Expr)) : Run String := do
  let caller := callingTemplate (← get)
  match stage.space? caller space with
  | none => throw (.unknownSpace space caller)
  | some (home, macros) =>
    match Dict.get? name macros with
    | none => throw (.unknownMacro space name caller)
    | some definition =>
      let values ← parameterValues ev name args definition.params
      modify (·.push ⟨.macroBody space name, home, values⟩)
      let printed ← ev.body escape definition.body
      modify Scope.pop
      return printed

end Stencil.Render
