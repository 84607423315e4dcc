/-
Pages.

Here the steps of the evaluation are tied together: each reading of a part of a template uses
the readings of smaller parts, and `fuel` bounds how deep they are nested.  A page is what a
whole template prints.
-/
import Stencil.Render.Body

namespace Stencil.Render

open Stencil.Language (Expr Node)

mutual

/-- The value of an expression. -/
def value (stage : Stage) : (fuel : Nat) → (escape : Bool) → Expr → Run Json
  | 0, _, _ => throw .exhausted
  | fuel + 1, escape, e =>
    valueStep stage
      ⟨value stage fuel, condition stage fuel, number stage fuel, body stage fuel⟩ escape e

/-- Whether an expression holds. -/
def condition (stage : Stage) : (fuel : Nat) → (escape : Bool) → Expr → Run Bool
  | 0, _, _ => throw .exhausted
  | fuel + 1, escape, e =>
    conditionStep stage
      ⟨value stage fuel, condition stage fuel, number stage fuel, body stage fuel⟩ escape e

/-- The value of an expression in arithmetic. -/
def number (stage : Stage) : (fuel : Nat) → (escape : Bool) → Expr → Run (Option Number)
  | 0, _, _ => throw .exhausted
  | fuel + 1, escape, e =>
    numberStep stage
      ⟨value stage fuel, condition stage fuel, number stage fuel, body stage fuel⟩ escape e

/-- What a body prints. -/
def body (stage : Stage) : (fuel : Nat) → (escape : Bool) → List Node → Run String
  | 0, _, _ => throw .exhausted
  | fuel + 1, escape, nodes =>
    bodyStep stage
      ⟨value stage fuel, condition stage fuel, number stage fuel, body stage fuel⟩ escape nodes

end

/-- How deep the parts of templates may be nested in a render. -/
def maxNesting : Nat := 100000

/-- The four readings. -/
def evaluators (stage : Stage) : Evaluators :=
  ⟨value stage maxNesting, condition stage maxNesting, number stage maxNesting,
    body stage maxNesting⟩

/-- Where a page failed, and why. -/
structure PageFault where
  location : String
  problem : Problem

/-- The wordings of a fault, from the outermost one inwards. -/
def PageFault.chain (f : PageFault) : List String := f.location :: f.problem.chain

/-- The words for the place where the template `root` failed. -/
def location (stage : Stage) (root : String) (scope : Scope) : String :=
  let inMacro :=
    match scope.frames.head?.map Frame.kind with
    | some (.macroBody space name) =>
      ": error while rendering macro `" ++ space ++ "::" ++ name ++ "`"
    | _ => ""
  let blocks := ((Dict.get? root stage.sheets).map (·.blocks)).getD []
  let inBlock :=
    match scope.blocks with
    | (name, _) :: _ =>
      if Dict.hasKey name blocks then "" else " (error happened in a parent template)"
    | [] => ""
  "Failed to render '" ++ root ++ "'" ++ inMacro ++ inBlock

/-- Renders the nodes of a template one after another. -/
def renderTop (stage : Stage) (escape : Bool) : List Node → Run String
  | [] => pure ""
  | node :: rest => do
    let printed ← renderNode stage (evaluators stage) escape node
    return printed ++ (← renderTop stage escape rest)

/-- The page of the template under the key `root`. -/
def page (stage : Stage) (escape : Bool) (root : String) : Except PageFault String :=
  let nodes := ((Dict.get? root stage.sheets).map (·.nodes)).getD []
  match (renderTop stage escape nodes).run (Scope.start root) with
  | (.ok printed, _) => .ok printed
  | (.error problem, scope) => .error ⟨location stage root scope, problem⟩

end Stencil.Render
