/-
Variables.

The path of a variable may hold subscripts, and a subscript may itself be the path of a
variable.  Such a subscript is evaluated first, and its value takes its place as one more step
of the path.
-/
import Stencil.Render.Problem
import Stencil.Render.Scope

namespace Stencil.Render

/-- The variable whose value is everything that is visible. -/
def everything : String := "__tera_context"

/-- The texts between the brackets of a path, apart from strings.  `inside` is the text in
progress, the last character first, with the number of brackets still open. -/
def bracketed : (inside : Option (Nat × List Char)) → List Char → List (List Char)
  | _, [] => []
  | none, '[' :: c :: cs =>
    if c = '"' ∨ c = '\'' then bracketed none cs else bracketed (some (1, [c])) cs
  | none, _ :: cs => bracketed none cs
  | some (depth, text), c :: cs =>
    if c = ']' ∧ depth = 1 then text.reverse :: bracketed none cs
    else
      let depth := if c = ']' then depth - 1 else if c = '[' then depth + 1 else depth
      bracketed (some (depth, c :: text)) cs

/-- Whether a subscript is an index already.  A plus sign may stand in front of it. -/
def isIndex (subscript : List Char) : Bool :=
  let digits := if subscript.head? = some '+' then subscript.drop 1 else subscript
  !digits.isEmpty && digits.all Char.isDigit &&
    decide ((Decimal.digitsValue digits : Int) < Number.natLimit)

/-- The subscripts of a path that have to be evaluated. -/
def subscripts (path : String) : List String :=
  ((bracketed none path.toList).filter (!isIndex ·)).map String.ofList

/-- Puts `new` in place of the first `part` of a text, or at the end if there is none. -/
def replaceFirst (part new : List Char) : List Char → List Char
  | [] => new
  | c :: cs =>
    match Text.strip? part (c :: cs) with
    | some rest => new ++ rest
    | none => c :: replaceFirst part new cs

/-- How the value of a subscript is written as a step. -/
def subscriptStep? : Json → Option String
  | .string s => some ("\"" ++ s ++ "\"")
  | .number n => some (String.ofList (Json.numberText n))
  | _ => none

/-- A path with all its brackets written as steps. -/
def plainPath (path : List Char) : List Char :=
  [("/", "~1"), ("['", ".\""), ("[\"", ".\""), ("[", "."), ("']", "\""), ("\"]", "\""),
    ("]", "")].foldl (fun text r => Text.replace r.1.toList r.2.toList text) path

/-- The value of a path; `fuel` bounds how deep subscripts are nested. -/
def lookUp (given : Dict Json) (scope : Scope) : (fuel : Nat) → String → Except Problem Json
  | 0, _ => .error .exhausted
  | fuel + 1, path =>
    if '[' ∉ path.toList then
      match scope.find? given path with
      | some value => .ok value
      | none => .error (.unknownVariable path scope.template none)
    else do
      let evaluated ← (subscripts path).foldlM (fun (text : List Char) subscript =>
        match lookUp given scope fuel subscript with
        | .error problem => .error (.failedSubscript path problem)
        | .ok value =>
          match subscriptStep? value with
          | none => .error (.unfitSubscript subscript path)
          | some step =>
            .ok (replaceFirst ('[' :: subscript.toList ++ [']']) ('.' :: step.toList) text))
        path.toList
      let plain := String.ofList (plainPath evaluated)
      match scope.find? given plain with
      | some value => return value
      | none => throw (.unknownVariable path scope.template (some plain))

/-- The value of a variable. -/
def variableValue (given : Dict Json) (scope : Scope) (path : String) : Except Problem Json :=
  if path = everything then .ok (.string (Json.object (scope.visible given)).indented)
  else lookUp given scope (path.length + 1) path

end Stencil.Render
