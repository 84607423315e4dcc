/-
Nodes and bodies.

A body is rendered node by node, until a node ends the pass through the loop it stands in.
-/
import Stencil.Render.Expression

namespace Stencil.Render

open Stencil.Language (Expr Margin Node)

/-- What messages call the container of a loop, if it can be one. -/
def containerName? (container : Expr) : Option String :=
  match container.term with
  | .ident path => some path
  | .call call => some call.name
  | .array _ => some "an array literal"
  | _ => none

/-- The items of a container, with keys where it has some. -/
def loopItems (name : String) (hasKey : Bool) (container : Json) :
    Except LoopFault (List (String × Json)) :=
  match container with
  | .array items =>
    if hasKey then .error (.keyForItems name) else .ok (items.map fun item => ("", item))
  | .string s =>
    if hasKey then .error (.keyForItems name)
    else .ok (s.toList.map fun c => ("", .string (String.ofList [c])))
  | .object members =>
    if hasKey then .ok members else .error (.noKeyForMembers name)
  | _ => .error (.unfitValue name)

/-- The loop at one of `count` items. -/
def Loop.atItem (keyName : Option String) (valueName : String) (count index : Nat)
    (item : String × Json) : Loop where
  keyName := keyName
  valueName := valueName
  key := item.1
  value := item.2
  index := index
  count := count

/-- Renders a body for one item after another, from the one with the given index on. -/
def renderItems (state : Nat → String × Json → Loop) (body : Run String) :
    Nat → List (String × Json) → Run String
  | _, [] => pure ""
  | index, item :: rest => do
    modify (·.modifyTop fun f => { f with kind := .loop (state index item), values := [] })
    let printed ← body
    let signal := ((← get).loop?.map Loop.signal).getD .proceed
    if signal = .leave then return printed
    else return printed ++ (← renderItems state body (index + 1) rest)

/-- Renders a loop. -/
def renderLoop (ev : Evaluators) (escape : Bool) (keyName : Option String)
    (valueName : String) (container : Expr) (body : List Node)
    (otherwise : Option (List Node)) : Run String :=
  match containerName? container with
  | none => throw (.loop (.unfitExpression container.term.dump))
  | some name => do
    let value ← ev.value false container
    let items ← settle .loop (loopItems name keyName.isSome value)
    match items, otherwise with
    | [], some nodes => ev.body escape nodes
    | [], none => return ""
    | first :: rest, _ =>
      let state := Loop.atItem keyName valueName items.length
      modify fun s => s.push ⟨.loop (state 0 first), s.template, []⟩
      let printed ← renderItems state (ev.body escape body) 0 (first :: rest)
      modify Scope.pop
      return printed

/-- Tells the innermost loop how to go on. -/
def signalLoop (command : String) (signal : Signal) : Run String := do
  match (← get).loop? with
  | none => throw (.outsideLoop command)
  | some l =>
    modify (·.modifyTop (·.withLoop { l with signal := signal }))
    return ""

/-- Renders the first template of a list that exists. -/
def renderIncluded (stage : Stage) (ev : Evaluators) (escape : Bool) (files : List String)
    (mayMiss : Bool) : Run String :=
  match files.find? (Dict.hasKey · stage.sheets) with
  | none => if mayMiss then pure "" else throw (.unknownTemplates files)
  | some file => do
    modify (·.push ⟨.included, file, []⟩)
    let printed ← ev.body escape (((Dict.get? file stage.sheets).map (·.nodes)).getD [])
    modify Scope.pop
    return printed

/-- Renders a block: the one that the template at hand defines under its name, or else its own
body. -/
def renderBlock (stage : Stage) (ev : Evaluators) (escape : Bool) (name : String)
    (body : List Node) : Run String := do
  let template := (← get).template
  match (Dict.get? template stage.sheets).bind fun sheet => Dict.get? name sheet.blocks with
  | some defined =>
    modify fun s => { s with blocks := (name, template) :: s.blocks }
    ev.body escape defined
  | none => ev.body escape body

/-- Renders the body of the first branch whose condition holds. -/
def renderBranches (ev : Evaluators) (escape : Bool) (otherwise : Option (Margin × List Node)) :
    List (Margin × Expr × List Node) → Run String
  | [] =>
    match otherwise with
    | some (_, body) => ev.body escape body
    | none => pure ""
  | (_, condition, body) :: rest => do
    if ← ev.condition escape condition then ev.body escape body
    else renderBranches ev escape otherwise rest

/-- Renders a node. -/
def renderNode (stage : Stage) (ev : Evaluators) (escape : Bool) : Node → Run String
  | .text text | .raw _ text _ => pure text
  | .comment _ | .imports _ _ _ | .macroDefinition _ _ _ _ _ => pure ""
  | .output _ value => do return (← ev.value escape value).printed
  | .assign _ name value isGlobal => do
    let value ← ev.value false value
    modify (·.set isGlobal name value)
    return ""
  | .includes _ files mayMiss => renderIncluded stage ev escape files mayMiss
  | .inherits _ file => throw (.inheritsWhenIncluded file)
  | .filtered _ filter body _ => do
    let printed ← ev.body escape body
    if filter.name = "safe" then return printed
    else return (← applyFilter ev filter (.string printed)).printed
  | .block _ name body _ => renderBlock stage ev escape name body
  | .loop _ key value container body otherwise _ =>
    renderLoop ev escape key value container body otherwise
  | .choose branches otherwise _ => renderBranches ev escape otherwise branches
  | .leave _ => signalLoop "break" .leave
  | .next _ => signalLoop "continue" .next
  | .replaced => throw .replacesNothing

/-- Renders a body. -/
def bodyStep (stage : Stage) (ev : Evaluators) (escape : Bool) : List Node → Run String
  | [] => pure ""
  | node :: rest => do
    let printed ← renderNode stage ev escape node
    if (← get).skipsRest then return printed
    else return printed ++ (← bodyStep stage ev escape rest)

end Stencil.Render
